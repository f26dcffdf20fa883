import ReliableDatagram.Proofs.Channel.Directions
import ReliableDatagram.Proofs.Link.Episode

/-!
# Histories of a run

What happened on one channel number in a run of a link: the writes that were taken in, the payloads
that were delivered, and whether a channel lived on through the whole run.
-/

namespace ReliableDatagram.Link

open Channel

/-- The payloads that writes at the end `e` were taken in with, in the order of the calls. -/
def accepted (e : End) (n : UInt8) : List Op → Link → List Bytes
  | [], _ => []
  | op :: ops, l => l.accepts e n op ++ accepted e n ops (l.apply op).value

/-- The payloads that the end `e` delivered to its application, in order. -/
def delivered (e : End) (n : UInt8) (log : List (End × Effect)) : List Bytes :=
  payloads (said e n log)

/-- The data packets that the end `e` sent for the first time. -/
def sent (e : End) (n : UInt8) (log : List (End × Effect)) : List Packet :=
  launched (said e n log)

/-- The data packets that reach the end `e` in a run. -/
def arrivals (e : End) (n : UInt8) : List Op → Link → List Packet
  | [], _ => []
  | op :: ops, l => l.brings e n op ++ arrivals e n ops (l.apply op).value

/-- Once the end `e` has a channel, it keeps it through the run. -/
def Keeps (e : End) (n : UInt8) : List Op → Link → Prop
  | [], _ => True
  | op :: ops, l =>
    ((l.channel? e n).isSome → ((l.apply op).value.channel? e n).isSome) ∧
      Keeps e n ops (l.apply op).value

instance instDecidableKeeps (e : End) (n : UInt8) : (ops : List Op) → (l : Link) → Decidable (Keeps e n ops l)
  | [], _ => .isTrue trivial
  | op :: ops, l =>
    have := instDecidableKeeps e n ops (l.apply op).value
    inferInstanceAs (Decidable (_ ∧ _))

/-- Both tables are empty, and nothing is in the air. -/
def Fresh (l : Link) : Prop := ∀ e, (l.side e).table.channels = [] ∧ (l.side e).flying = []

def pair : Link where
  a := { addr := ⟨.v4 1, 1⟩, table := { config := {}, clock := ⟨0, 0⟩ } }
  b := { addr := ⟨.v4 2, 2⟩, table := { config := {}, clock := ⟨0, 7⟩ } }

theorem fresh_pair : pair.Fresh := fun e => by cases e <;> exact ⟨rfl, rfl⟩

def Op.isRestart : Op → Bool
  | .restart _ _ => true
  | _ => false

/-- An operation of normal use: no table is restarted, and channel numbers are in range. -/
def Op.Regular (op : Op) : Prop := op.Sound ∧ op.isRestart = false

instance (op : Op) : Decidable op.Sound := by
  unfold Op.Sound
  split <;> infer_instance

instance (op : Op) : Decidable op.Regular := inferInstanceAs (Decidable (_ ∧ _))

@[simp] theorem delivered_append (e : End) (n : UInt8) (log log' : List (End × Effect)) :
    delivered e n (log ++ log') = delivered e n log ++ delivered e n log' := by
  simp [delivered]

@[simp] theorem sent_append (e : End) (n : UInt8) (log log' : List (End × Effect)) :
    sent e n (log ++ log') = sent e n log ++ sent e n log' := by
  simp [sent]

variable {l : Link} {e x : End} {n : UInt8} {op : Op}

@[simp] theorem run_nil (l : Link) : run [] l = pure l := rfl

@[simp] theorem value_run_cons (op : Op) (ops : List Op) (l : Link) :
    (run (op :: ops) l).value = (run ops (l.apply op).value).value := rfl

@[simp] theorem log_run_cons (op : Op) (ops : List Op) (l : Link) :
    (run (op :: ops) l).log = (l.apply op).log ++ (run ops (l.apply op).value).log := rfl

theorem value_run_append (ops ops' : List Op) (l : Link) :
    (run (ops ++ ops') l).value = (run ops' (run ops l).value).value := by
  induction ops generalizing l with
  | nil => rfl
  | cons op ops ih => exact ih _

theorem log_run_append (ops ops' : List Op) (l : Link) :
    (run (ops ++ ops') l).log = (run ops l).log ++ (run ops' (run ops l).value).log := by
  induction ops generalizing l with
  | nil => rfl
  | cons op ops ih =>
    rw [List.cons_append, log_run_cons, log_run_cons, ih, List.append_assoc]
    rfl

theorem accepted_append (e : End) (n : UInt8) (ops ops' : List Op) (l : Link) :
    accepted e n (ops ++ ops') l = accepted e n ops l ++ accepted e n ops' (run ops l).value := by
  induction ops generalizing l with
  | nil => rfl
  | cons op ops ih =>
    rw [List.cons_append, accepted, accepted, ih, List.append_assoc]
    rfl

theorem keeps_append {ops ops' : List Op} :
    Keeps e n (ops ++ ops') l ↔ Keeps e n ops l ∧ Keeps e n ops' (run ops l).value := by
  induction ops generalizing l with
  | nil => exact ⟨fun rest => ⟨trivial, rest⟩, fun both => both.2⟩
  | cons op ops ih =>
    constructor
    · intro ⟨first, rest⟩
      exact ⟨⟨first, (ih.mp rest).1⟩, (ih.mp rest).2⟩
    · intro ⟨⟨first, rest⟩, rest'⟩
      exact ⟨first, ih.mpr ⟨rest, rest'⟩⟩

theorem Fresh.sound {l : Link} (fresh : l.Fresh) : l.Sound := fun e => Table.sound_empty _ _ (fresh e).1

theorem Fresh.channel? {l : Link} (fresh : l.Fresh) (e : End) (n : UInt8) :
    l.channel? e n = none := by
  unfold Link.channel? Table.find?
  rw [(fresh e).1]
  rfl

theorem Fresh.air {l : Link} (fresh : l.Fresh) (e : End) (n : UInt8) : l.air e n = [] := by
  unfold Link.air
  rw [(fresh e).2]
  rfl

theorem Sound.run {l : Link} (sound : l.Sound) {ops : List Op} (known : ∀ op ∈ ops, op.Sound) :
    (Link.run ops l).value.Sound := by
  induction ops generalizing l with
  | nil => exact sound
  | cons op ops ih =>
    exact ih (sound.apply (known op List.mem_cons_self)) fun op mem =>
      known op (List.mem_cons_of_mem _ mem)

theorem now_perform (l : Link) (e : End) (r : Table.Request) :
    (l.perform e r).value.2.now = l.now := now_setSide l e _

theorem now_of_request {r : Table.Request} (asked : l.request? op = some (e, r)) :
    (l.apply op).value.now = l.now := by
  rw [apply_of_request asked]
  exact (now_perform _ _ _).trans (prepare_now asked)

theorem now_deliver (l : Link) (e : End) (i : Nat) :
    (l.apply (.deliver e i)).value.now = l.now := by
  cases asked : l.request? (.deliver e i) with
  | none =>
    rw [apply_of_no_request asked]
    exact now_setSide l e _
  | some request => exact now_of_request asked

theorem now_apply_le (l : Link) (op : Op) : l.now ≤ (l.apply op).value.now := by
  have prepared : l.now ≤ (l.prepare op).now := by
    cases op with
    | pass duration => exact Nat.le_add_right _ _
    | deliver from' i | lose from' i => exact Nat.le_of_eq (now_setSide l from' _).symm
    | restart from' base => exact Nat.le_of_eq (now_setSide l from' _).symm
    | _ => exact Nat.le_refl _
  cases asked : l.request? op with
  | none =>
    rw [apply_of_no_request asked]
    exact prepared
  | some request =>
    rw [apply_of_request asked]
    exact Nat.le_trans prepared (Nat.le_of_eq (now_perform _ _ _).symm)

theorem now_run_le (ops : List Op) (l : Link) : l.now ≤ (run ops l).value.now := by
  induction ops generalizing l with
  | nil => exact Nat.le_refl _
  | cons op ops ih => exact Nat.le_trans (now_apply_le l op) (ih _)

/-- What no request changes in a table is changed by the network's part of an operation only. -/
theorem setup_apply {α : Type} {f : Table → α}
    (performs : ∀ t now r, f (Table.perform t now r).value.2 = f t) (l : Link) (op : Op) (x : End) :
    f ((l.apply op).value.side x).table = f ((l.prepare op).side x).table := by
  cases asked : l.request? op with
  | none =>
    rw [apply_of_no_request asked]
    rfl
  | some request =>
    obtain ⟨e, r⟩ := request
    rw [apply_of_request asked]
    show f (((l.prepare op).perform e r).value.2.side x).table = _
    simp only [perform, launch, side_setSide]
    split
    · next own =>
      rw [own]
      exact performs _ _ _
    · rfl

def clock (l : Link) (e : End) : Clock := (l.side e).table.clock

theorem clock_apply (regular : op.isRestart = false) (x : End) :
    (l.apply op).value.clock x = l.clock x := by
  refine (setup_apply (Table.view_perform fun _ _ _ _ => rfl) l op x).trans ?_
  unfold clock
  cases op with
  | deliver from' i | lose from' i => exact congrArg Table.clock (table_lose l from' x i)
  | restart => cases regular
  | _ => rfl

def config (l : Link) (e : End) : Config := (l.side e).table.config

/-- A table keeps its configuration, even when it is restarted. -/
theorem config_apply (l : Link) (op : Op) (x : End) : (l.apply op).value.config x = l.config x := by
  refine (setup_apply (Table.view_perform fun _ _ _ _ => rfl) l op x).trans ?_
  unfold config
  cases op with
  | deliver from' i | lose from' i => exact congrArg Table.config (table_lose l from' x i)
  | restart from' base =>
    simp only [prepare, restart, side_setSide]
    split
    · next own => rw [own]
    · rfl
  | _ => rfl

section Channels

variable {P : End → Channel → Prop}

/-- New channels at each end have the property, and under the configuration of their end no operation
takes it from them. -/
structure Abides (l : Link) (P : End → Channel → Prop) : Prop where
  create : ∀ e key generation now, P e (.create key generation (l.config e) now)
  step : ∀ (e : End) (ctx : Context) (asked : Channel.Op) {c c' : Channel} {log : List Effect}
    {ws : List ParkedWrite}, ctx.config = l.config e → c.Sound → asked.Sound c.key →
    c.apply ctx asked = ⟨c', log⟩ → Moves ctx asked c log ws c' → P e c → P e c'

theorem Abides.apply (abides : l.Abides P) (op : Op) : (l.apply op).value.Abides P := by
  constructor
  · intro e
    rw [config_apply]
    exact abides.create e
  · intro e ctx asked c c' log ws config
    rw [config_apply] at config
    exact abides.step e ctx asked config

theorem channel?_of_turn {v : Conversation} {c : Channel} {c? : Option Channel} {packets : List Packet}
    (found : (v.turn x c? packets).channel? e = some c) : e = x ∧ c? = some c ∨ v.channel? e = some c := by
  by_cases own : e = x
  · subst own
    rw [Conversation.turn_channel?_self] at found
    exact .inl ⟨rfl, found⟩
  · obtain rfl := End.eq_other own
    rw [Conversation.turn_channel?_other] at found
    exact .inr found

/-- What lasts in a channel holds of all channels on a number, if it did before. -/
theorem channels_apply (abides : l.Abides P) (sound : l.Sound) (known : op.Sound)
    (holds : ∀ e c, l.channel? e n = some c → P e c) :
    ∀ e c, (l.apply op).value.channel? e n = some c → P e c := by
  intro e c found
  cases episode sound known n with
  | still view => exact holds e c ((view.channel? e).symm.trans found)
  | @act x asked d d' log ws offered _ own knownOp exact moves view =>
    rcases channel?_of_turn ((view.channel? e).symm.trans found) with ⟨rfl, here⟩ | there
    · rw [← Option.some.inj here]
      refine abides.step e _ asked rfl own (by rwa [offered.key_eq]) exact moves ?_
      rcases offered with here | ⟨_, rfl⟩
      · exact holds e d here
      · exact abides.create _ _ _ _
    · exact holds e c there
  | leave _ _ _ view | forget _ view =>
    rcases channel?_of_turn ((view.channel? e).symm.trans found) with ⟨_, none⟩ | there
    · cases none
    · exact holds e c there

theorem channels_run {ops : List Op} (abides : l.Abides P) (sound : l.Sound)
    (known : ∀ op ∈ ops, op.Sound) (holds : ∀ e c, l.channel? e n = some c → P e c) :
    ∀ e c, (run ops l).value.channel? e n = some c → P e c := by
  induction ops generalizing l with
  | nil => exact holds
  | cons op ops ih =>
    have first := known op List.mem_cons_self
    exact ih (abides.apply op) (sound.apply first) (fun op mem => known op (List.mem_cons_of_mem _ mem))
      (channels_apply abides sound first holds)

/-- In every run of a fresh link, all channels have what lasts. -/
theorem Abides.channels_of_fresh {ops : List Op} (abides : l.Abides P) (fresh : l.Fresh)
    (known : ∀ op ∈ ops, op.Sound) (n : UInt8) :
    ∀ e c, (run ops l).value.channel? e n = some c → P e c :=
  channels_run abides fresh.sound known fun e c found => by
    rw [fresh.channel?] at found
    cases found

end Channels

section Listening

/-- What an operation of the link is to the receiver at the end `x`: it hears nothing of it, or its
channel makes the moves for what it hears. -/
inductive Listening (n : UInt8) (l : Link) (x : End) (op : Op) : Prop
  | still (same : ((l.apply op).value.conversation n).receiver x = (l.conversation n).receiver x)
      (silent : said x n (l.apply op).log = []) (brings : l.brings x n op = [])
  | act {asked : Channel.Op} {c c' : Channel} {log : List Effect} {ws : List ParkedWrite}
      (begun : c.receiver = (l.conversation n).receiver x)
      (heard : ∀ p, asked = .packet p → p ∈ l.air x.other n) (sound : c.Sound)
      (known : asked.Sound c.key) (applied : c.apply (l.context x) asked = ⟨c', log⟩)
      (moves : Moves (l.context x) asked c log ws c')
      (after : ((l.apply op).value.conversation n).receiver x = c'.receiver)
      (delivers : delivered x n (l.apply op).log = payloads log)
      (utters : packets (said x n (l.apply op).log) = packets log)
      (brings : l.brings x n op = asked.data)

theorem receiver_of_none (none : l.channel? x n = none) : (l.conversation n).receiver x = {} := by
  simp only [Conversation.receiver, conversation, none]

/-- A receiver whose channel is not destroyed hears nothing or makes moves. -/
theorem listening (sound : l.Sound) (known : op.Sound)
    (keeps : (l.channel? x n).isSome → ((l.apply op).value.channel? x n).isSome) :
    Listening n l x op := by
  -- a channel that is not there afterwards was not there before
  have absent (gone : (l.apply op).value.channel? x n = none) :
      ((l.apply op).value.conversation n).receiver x = (l.conversation n).receiver x := by
    have missing : l.channel? x n = none := by
      cases here : l.channel? x n with
      | none => rfl
      | some c =>
        have kept := keeps (by rw [here]; rfl)
        rw [gone] at kept
        cases kept
    rw [receiver_of_none gone, receiver_of_none missing]
  cases episode sound known n with
  | still view silent accepts brings => exact .still (view.receiver x) (silent x) (brings x)
  | @act y asked c c' log ws offered heard own knownOp applied moves view speech accepts brings =>
    by_cases here : x = y
    · subst here
      have key := offered.key_eq
      have known' : asked.Sound c.key := by rwa [key]
      have begun := (Conversation.alike_offer (v := l.conversation n) rfl offered).receiver x
      rw [Conversation.receiver_turn_self] at begun
      have after := view.receiver x
      rw [Conversation.receiver_turn_self] at after
      have speaks := moves.speaks own known'
      have channel : c.key.channel = n := by rw [key]; rfl
      refine .act begun heard own known' applied moves after ?_ ?_ ?_
      · rw [delivered, speech, if_pos rfl]
        exact filterMap_voice (fun _ _ => rfl) speaks channel
      · rw [speech, if_pos rfl]
        exact filterMap_voice (fun _ _ => rfl) speaks channel
      · rw [brings, if_pos rfl]
    · obtain rfl : x = y.other := End.eq_other here
      refine .still ?_ ?_ ?_
      · rw [view.receiver, Conversation.receiver_turn_other]
      · rw [speech, if_neg here]
      · rw [brings, if_neg here]
  | @leave y c c' log reason found own moves view speech accepts brings =>
    by_cases here : x = y
    · subst here
      exact (not_kept view (keeps (by rw [found]; rfl))).elim
    · obtain rfl : x = y.other := End.eq_other here
      refine .still ?_ ?_ (brings _)
      · rw [view.receiver, Conversation.receiver_turn_other]
      · rw [speech, if_neg here]
  | @forget y base restart view silent accepts brings =>
    by_cases here : x = y
    · subst here
      refine .still (absent ?_) (silent x) (brings x)
      exact (view.channel? x).trans (Conversation.turn_channel?_self _ _ _ _)
    · obtain rfl : x = y.other := End.eq_other here
      refine .still ?_ (silent _) (brings _)
      rw [view.receiver, Conversation.receiver_turn_other]

end Listening

/-- If this restarts the table of the end `e`, then its clock goes on where it stands. -/
def Op.Continues (l : Link) (e : End) : Op → Prop
  | .restart x base => x = e → base = (l.clock e).timestamp l.now
  | _ => True

/-- The clock of the end `e` goes on through all restarts of its table. -/
def Continues (e : End) : List Op → Link → Prop
  | [], _ => True
  | op :: ops, l => op.Continues l e ∧ Continues e ops (l.apply op).value

instance instDecidableOpContinues (l : Link) (e : End) (op : Op) : Decidable (op.Continues l e) := by
  unfold Op.Continues
  split <;> infer_instance

instance instDecidableContinues (e : End) : (ops : List Op) → (l : Link) → Decidable (Continues e ops l)
  | [], _ => .isTrue trivial
  | op :: ops, l =>
    have := instDecidableContinues e ops (l.apply op).value
    inferInstanceAs (Decidable (_ ∧ _))

theorem continues_append {ops ops' : List Op} : Continues e (ops ++ ops') l ↔
    Continues e ops l ∧ Continues e ops' (run ops l).value := by
  induction ops generalizing l with
  | nil => exact ⟨fun rest => ⟨trivial, rest⟩, fun both => both.2⟩
  | cons op ops ih =>
    constructor
    · intro ⟨first, rest⟩
      exact ⟨⟨first, (ih.mp rest).1⟩, (ih.mp rest).2⟩
    · intro ⟨⟨first, rest⟩, rest'⟩
      exact ⟨first, ih.mpr ⟨rest, rest'⟩⟩

theorem clock_of_continues (continues : op.Continues l e) :
    (l.apply op).value.clock e = l.clock e ∨
      (l.apply op).value.clock e = ⟨l.now, (l.clock e).timestamp l.now⟩ ∧
        (l.apply op).value.now = l.now := by
  cases op with
  | restart x base =>
    show ((l.restart x base).2.side e).table.clock = _ ∨ ((l.restart x base).2.side e).table.clock = _ ∧
      (l.restart x base).2.now = _
    simp only [restart, side_setSide, now_setSide]
    split
    · next own => exact .inr ⟨by rw [← continues own.symm], trivial⟩
    · exact .inl rfl
  | _ => exact .inl (clock_apply rfl e)

end ReliableDatagram.Link
