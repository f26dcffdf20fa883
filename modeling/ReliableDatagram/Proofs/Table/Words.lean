import ReliableDatagram.Proofs.Table.Lives

/-!
# The words of events about a key

The events about a key are one word after the other, a word for each generation that was created
for the key. `Course` follows the life of one generation step by step: its phase is fresh up to the
step that brings the first packet, and this step reports the connection.
-/

namespace ReliableDatagram.Table

open Channel

/-- One step in the life of a channel: whether a packet for it arrived, whether a packet of it left,
and what was reported about it. -/
structure Moment where
  heard : Bool
  sent : Bool
  events : List Event

def moment (key : Key) (op : Op) (log : List Effect) : Moment where
  heard := op.brings key
  sent := log.any (Effect.isPacketTo key)
  events := eventsOf key log

/-- The steps in the life of a channel: those that find it in the table or leave it there. -/
def life (key : Key) (generation : Nat) : List (Nat × Op) → Table → List Moment
  | [], _ => []
  | (now, op) :: ops, t =>
    let x := t.apply now op
    let rest := life key generation ops x.value
    if (t.live? key generation).isSome ∨ (x.value.live? key generation).isSome then
      moment key op x.log :: rest
    else rest

/-- The generations that are created for a key in the course of a run. -/
def created (key : Key) : List (Nat × Op) → Table → List Nat
  | [], _ => []
  | (now, op) :: ops, t =>
    let t' := (t.apply now op).value
    let new? := (t'.find? key).filter fun c => (t.live? key c.generation).isNone
    (new?.map Channel.generation).toList ++ created key ops t'

/-- What is reported about a connection, which may be over. -/
inductive Remainder (key : Key) : Bool → List Event → Prop
  | running {late : List Event} (talk : ∀ e ∈ late, e.Talk key) : Remainder key false late
  | ended {late : List Event} {reason : DisconnectReason} (talk : ∀ e ∈ late, e.Talk key) :
      Remainder key true (late ++ [.disconnected key reason])

/-- What is reported about a generation, which may be destroyed. -/
inductive Word (key : Key) (destroyed : Bool) : List Event → Prop
  | unconnected {early : List Event} (signals : ∀ e ∈ early, e.Signal key) :
      Word key destroyed early
  | connected {early late : List Event} (signals : ∀ e ∈ early, e.Signal key)
      (rest : Remainder key destroyed late) : Word key destroyed (early ++ .connected key :: late)

/-- Whether packets went in both directions. -/
def acquainted (moments : List Moment) : Bool :=
  moments.any Moment.sent && moments.any Moment.heard

/-- The phase after a step: a packet connects the channel. -/
def Moment.turn (m : Moment) (phase : Phase) : Phase := if m.heard then .connected else phase

/-- The steps in the life of a channel from some phase on, up to its end if it was destroyed. -/
inductive Course (key : Key) : Phase → List Moment → Bool → Prop
  | present {phase : Phase} : Course key phase [] false
  | step {phase : Phase} {m : Moment} {ms : List Moment} {destroyed : Bool}
      (speech : Speech key phase m.events (m.turn phase))
      (rest : Course key (m.turn phase) ms destroyed) : Course key phase (m :: ms) destroyed
  | last {phase : Phase} {m : Moment} {es : List Event} {reason : DisconnectReason}
      (unheard : m.heard = false) (speech : Speech key phase es phase)
      (events : m.events = es ++ if phase = .connected then [.disconnected key reason] else []) :
      Course key phase [m] true

section Course

variable {key : Key} {destroyed : Bool} {phase : Phase} {ms before after : List Moment} {m : Moment}
  {es late : List Event}

theorem Remainder.prepend (talk : ∀ e ∈ es, e.Talk key) (rest : Remainder key destroyed late) :
    Remainder key destroyed (es ++ late) := by
  cases rest with
  | running talk' => exact .running (List.forall_mem_append.mpr ⟨talk, talk'⟩)
  | ended talk' =>
    rw [← List.append_assoc]
    exact .ended (List.forall_mem_append.mpr ⟨talk, talk'⟩)

theorem Word.prepend (signals : ∀ e ∈ es, e.Signal key) (word : Word key destroyed late) :
    Word key destroyed (es ++ late) := by
  cases word with
  | unconnected signals' => exact .unconnected (List.forall_mem_append.mpr ⟨signals, signals'⟩)
  | connected signals' rest =>
    rw [← List.append_assoc]
    exact .connected (List.forall_mem_append.mpr ⟨signals, signals'⟩) rest

theorem turn_connected (m : Moment) : m.turn .connected = .connected := by
  unfold Moment.turn
  split <;> rfl

theorem turn_eq_fresh_iff (m : Moment) (phase : Phase) :
    m.turn phase = .fresh ↔ phase = .fresh ∧ m.heard = false := by
  unfold Moment.turn
  cases m.heard <;> simp

theorem Course.remainder (course : Course key .connected ms destroyed) :
    Remainder key destroyed (ms.flatMap Moment.events) := by
  induction ms with
  | nil =>
    cases course
    exact @Remainder.running _ [] nofun
  | cons m ms ih =>
    rw [List.flatMap_cons]
    cases course with
    | step speech rest =>
      rw [turn_connected] at speech rest
      generalize m.events = es at speech ⊢
      cases speech with
      | talk talk => exact (ih rest).prepend talk
    | last unheard speech events =>
      rw [events, if_pos rfl, List.flatMap_nil, List.append_nil]
      cases speech with
      | talk talk => exact .ended talk

theorem Course.word (course : Course key .fresh ms destroyed) :
    Word key destroyed (ms.flatMap Moment.events) := by
  induction ms with
  | nil => exact @Word.unconnected _ _ [] nofun
  | cons m ms ih =>
    rw [List.flatMap_cons]
    cases course with
    | step speech rest =>
      generalize m.events = es, m.turn .fresh = phase at speech rest ⊢
      cases speech with
      | quiet signals => exact (ih rest).prepend signals
      | greet signals talk =>
        rw [List.append_assoc, List.cons_append]
        exact .connected signals (rest.remainder.prepend talk)
    | last unheard speech events =>
      rw [events, if_neg (by nofun), List.flatMap_nil, List.append_nil, List.append_nil]
      cases speech with
      | quiet signals => exact .unconnected signals

/-- The connection is reported by the first step that brings a packet. -/
theorem Course.mem_connected_iff (course : Course key phase (before ++ m :: after) destroyed) :
    .connected key ∈ m.events ↔
      phase = .fresh ∧ m.heard = true ∧ before.any Moment.heard = false := by
  induction before generalizing phase with
  | nil =>
    rw [List.nil_append] at course
    cases course with
    | step speech =>
      rw [speech.mem_connected_iff]
      unfold Moment.turn
      cases m.heard <;> cases phase <;> simp
    | @last _ _ es reason unheard speech events =>
      have said : .connected key ∉ es := fun mem => by
        obtain ⟨fresh, connected⟩ := speech.mem_connected_iff.mp mem
        cases fresh.symm.trans connected
      have ended : .connected key ∉ m.events := by
        rw [events, List.mem_append]
        rintro (mem | mem)
        · exact said mem
        · split at mem
          · cases List.mem_singleton.mp mem
          · cases mem
      simp [ended, unheard]
  | cons b before ih =>
    rw [List.cons_append] at course
    generalize rest_eq : before ++ m :: after = rest at course
    cases course with
    | step speech rest =>
      subst rest_eq
      rw [ih rest, turn_eq_fresh_iff, List.any_cons, Bool.or_eq_false_iff]
      exact ⟨fun ⟨⟨fresh, unheard⟩, heard, earlier⟩ => ⟨fresh, heard, unheard, earlier⟩,
        fun ⟨fresh, heard, unheard, earlier⟩ => ⟨⟨fresh, unheard⟩, heard, earlier⟩⟩
    | last => simp at rest_eq

end Course

variable {t : Table} {key : Key} {now : Nat} {op : Op} {g : Nat}

section Lives

theorem live?_eq_none_iff :
    t.live? key g = none ↔ ∀ c, t.find? key = some c → c.generation ≠ g := by
  unfold live?
  cases t.find? key with
  | none => simp
  | some c => simp [Option.filter]

theorem live?_self {c : Channel} (found : t.find? key = some c) :
    t.live? key c.generation = some c := by
  simp [live?, found]

/-- Generations to come are not in use. -/
theorem Settled.unborn (settled : t.Settled) (later : t.nextGeneration ≤ g) :
    t.live? key g = none :=
  live?_eq_none_iff.mpr fun c found same =>
    absurd (settled.generations key c found) (by omega)

/-- A generation that is gone does not come back. -/
theorem Settled.gone (settled : t.Settled) (now : Nat) (op : Op) (earlier : g < t.nextGeneration)
    (gone : t.live? key g = none) : (t.apply now op).value.live? key g = none := by
  refine live?_eq_none_iff.mpr fun c found same => ?_
  have passage := passage_apply settled now op key
  rw [found] at passage
  obtain ⟨_, ⟨_, new⟩ | ⟨d, old, unchanged⟩⟩ := passage.survivor
  · omega
  · exact live?_eq_none_iff.mp gone d old (unchanged.symm.trans same)

theorem life_cons_of_live (ops : List (Nat × Op))
    (live : (t.live? key g).isSome ∨ ((t.apply now op).value.live? key g).isSome) :
    life key g ((now, op) :: ops) t =
      moment key op (t.apply now op).log :: life key g ops (t.apply now op).value :=
  if_pos live

theorem life_cons_of_absent (ops : List (Nat × Op)) (before : t.live? key g = none)
    (after : (t.apply now op).value.live? key g = none) :
    life key g ((now, op) :: ops) t = life key g ops (t.apply now op).value :=
  if_neg (by simp [before, after])

theorem life_of_gone (ops : List (Nat × Op)) (settled : t.Settled) (earlier : g < t.nextGeneration)
    (gone : t.live? key g = none) :
    life key g ops t = [] ∧ (run ops t).value.live? key g = none := by
  induction ops generalizing t with
  | nil => exact ⟨rfl, gone⟩
  | cons step ops ih =>
    obtain ⟨now, op⟩ := step
    have still := settled.gone now op earlier gone
    rw [life_cons_of_absent ops gone still]
    exact ih (settled_apply settled now op)
      (Nat.lt_of_lt_of_le earlier (nextGeneration_le t now op)) still

theorem phase_of_settled {c c' : Channel} {m : Moment} (settled : c.Settled) (settled' : c'.Settled)
    (known : c'.hasReceived = (c.hasReceived || m.heard)) : c'.phase = m.turn c.phase := by
  rw [settled'.phase, settled.phase, known, Moment.turn]
  cases c.hasReceived <;> cases m.heard <;> rfl

/-- What is left of the life of a channel in the table. -/
theorem course_of_present (ops : List (Nat × Op)) (settled : t.Settled) {c : Channel}
    (found : t.find? key = some c) :
    Course key c.phase (life key c.generation ops t)
      ((run ops t).value.live? key c.generation).isNone := by
  induction ops generalizing t c with
  | nil =>
    show Course key c.phase [] (t.live? key c.generation).isNone
    rw [live?_self found]
    exact .present
  | cons step ops ih =>
    obtain ⟨now, op⟩ := step
    have settled' := settled_apply settled now op
    have passage := passage_apply settled now op key
    rw [life_cons_of_live ops (.inl (by simp [live?_self found]))]
    rw [found] at passage
    show Course key c.phase _ ((run ops (t.apply now op).value).value.live? key c.generation).isNone
    cases after : (t.apply now op).value.find? key with
    | none =>
      rw [after] at passage
      obtain ⟨unheard, said, reason, speech, reported⟩ := passage.of_end
      have gone := live?_of_missing after c.generation
      have earlier : c.generation < (t.apply now op).value.nextGeneration :=
        Nat.lt_of_lt_of_le (settled.generations key c found) (nextGeneration_le t now op)
      obtain ⟨nothing, buried⟩ := life_of_gone ops settled' earlier gone
      rw [nothing, buried]
      exact .last unheard speech reported
    | some c' =>
      rw [after] at passage
      obtain ⟨same, alive, known, speech⟩ := passage.of_life
      have phase : c'.phase = (moment key op (t.apply now op).log).turn c.phase :=
        phase_of_settled (settled.channels key c found) alive known
      have rest := ih settled' after
      rw [same, phase] at rest
      rw [phase] at speech
      exact .step speech rest

/-- A generation to come is none of those that a step finds or leaves there. -/
theorem life_cons_of_unborn (ops : List (Nat × Op)) (settled : t.Settled)
    (later : (t.apply now op).value.nextGeneration ≤ g) :
    life key g ((now, op) :: ops) t = life key g ops (t.apply now op).value :=
  life_cons_of_absent ops
    (settled.unborn (Nat.le_trans (nextGeneration_le t now op) later))
    ((settled_apply settled now op).unborn later)

theorem created_cons_of_begin (ops : List (Nat × Op)) (before : t.find? key = none) {c : Channel}
    (after : (t.apply now op).value.find? key = some c) :
    created key ((now, op) :: ops) t =
      c.generation :: created key ops (t.apply now op).value := by
  simp [created, after, live?, before, Option.filter]

theorem created_cons_of_old (ops : List (Nat × Op))
    (old : ∀ c, (t.apply now op).value.find? key = some c →
      ∃ d, t.find? key = some d ∧ c.generation = d.generation) :
    created key ((now, op) :: ops) t = created key ops (t.apply now op).value := by
  cases after : (t.apply now op).value.find? key with
  | none => simp [created, after]
  | some c =>
    obtain ⟨d, before, same⟩ := old c after
    simp [created, after, live?, before, same, Option.filter]

/-- A step begins a life at a key, or who is there after it was there before. -/
theorem begins_or_old (settled : t.Settled) (now : Nat) (op : Op) (key : Key) :
    (∃ c, t.find? key = none ∧ (t.apply now op).value.find? key = some c) ∨
      ∀ c, (t.apply now op).value.find? key = some c →
        ∃ d, t.find? key = some d ∧ c.generation = d.generation := by
  cases after : (t.apply now op).value.find? key with
  | none => exact .inr nofun
  | some c =>
    have passage := passage_apply settled now op key
    rw [after] at passage
    obtain ⟨_, ⟨missing, _⟩ | ⟨d, before, same⟩⟩ := passage.survivor
    · exact .inl ⟨c, missing, rfl⟩
    · refine .inr fun c' found => ⟨d, before, ?_⟩
      cases found
      exact same

theorem created_ge (ops : List (Nat × Op)) (settled : t.Settled) :
    ∀ g ∈ created key ops t, t.nextGeneration ≤ g := by
  induction ops generalizing t with
  | nil => nofun
  | cons step ops ih =>
    obtain ⟨now, op⟩ := step
    intro g mem
    have later := ih (settled_apply settled now op)
    rcases begins_or_old settled now op key with ⟨c, before, after⟩ | old
    · rw [created_cons_of_begin ops before after] at mem
      rcases List.mem_cons.mp mem with rfl | mem
      · have passage := passage_apply settled now op key
        rw [before, after] at passage
        exact Nat.le_of_eq passage.of_begin.1.symm
      · exact Nat.le_trans (nextGeneration_le t now op) (later g mem)
    · rw [created_cons_of_old ops old] at mem
      exact Nat.le_trans (nextGeneration_le t now op) (later g mem)

theorem created_ascending (ops : List (Nat × Op)) (settled : t.Settled) :
    (created key ops t).Pairwise (· < ·) := by
  induction ops generalizing t with
  | nil => exact .nil
  | cons step ops ih =>
    obtain ⟨now, op⟩ := step
    have settled' := settled_apply settled now op
    rcases begins_or_old settled now op key with ⟨c, before, after⟩ | old
    · rw [created_cons_of_begin ops before after]
      refine List.pairwise_cons.mpr ⟨fun g mem => ?_, ih settled'⟩
      exact Nat.lt_of_lt_of_le (settled'.generations key c after) (created_ge ops settled' g mem)
    · rw [created_cons_of_old ops old]
      exact ih settled'

/-- The first step of a life sends a packet. -/
theorem sent_of_begin (settled : t.Settled) (channel_le : key.channel ≤ Packet.maxChannel)
    (before : t.find? key = none) {c : Channel}
    (after : (t.apply now op).value.find? key = some c) :
    (moment key op (t.apply now op).log).sent = true := by
  have alive := (settled_apply settled now op).channels key c after
  obtain ⟨target, _⟩ := opens_of_apply settled.order before after
  rw [find?_apply settled.order] at after
  show (t.apply now op).log.any (Effect.isPacketTo key) = true
  rw [log_of_target target]
  have sends (cop : Channel.Op) {x : Logged Effect Channel} (asked : cop.Sound key)
      (moves : Moves (t.context now) cop (Channel.create key t.nextGeneration t.config now) x.log []
        x.value) (same : x.value = c) : x.log.any (Effect.isPacketTo key) = true := by
    rcases moves.sends (same ▸ alive.hasSent) with never | ⟨e, logged, datagram⟩
    · cases never
    · exact List.any_eq_true.mpr
        ⟨e, logged, (moves.speaks (sound_create channel_le) asked e logged).isPacketTo datagram⟩
  cases concerned : t.concern? key op with
  | none =>
    rw [part_of_unconcerned concerned] at after
    exact nomatch before.symm.trans after
  | some q =>
    rw [part_of_concerned concerned, before] at after ⊢
    have opens := opens_of_serve after
    cases q with
    | packet p =>
      obtain ⟨bytes, _, parsed, own⟩ := concern?_eq_packet concerned
      have opens : p.header.kind.opensChannel = true := opens
      simp only [serve, opens, if_true] at after ⊢
      exact sends (.packet p) ⟨Packet.wellFormed_of_parse parsed, own⟩ (moves_onPacket _ _ p)
        (Option.some.inj after)
    | connect => exact sends .ping trivial (moves_ping _ _ .ping (.inl rfl)) (Option.some.inj after)
    | _ => cases opens

/-- The life of a generation that is created in the course of a run. -/
theorem course_of_created (ops : List (Nat × Op)) (settled : t.Settled) :
    ∀ g ∈ created key ops t,
      Course key .fresh (life key g ops t) ((run ops t).value.live? key g).isNone ∧
        ∀ m ms, life key g ops t = m :: ms → key.channel ≤ Packet.maxChannel → m.sent = true := by
  induction ops generalizing t with
  | nil => nofun
  | cons step ops ih =>
    obtain ⟨now, op⟩ := step
    intro g mem
    have settled' := settled_apply settled now op
    show Course key .fresh (life key g ((now, op) :: ops) t)
        ((run ops (t.apply now op).value).value.live? key g).isNone ∧ _
    have later (mem : g ∈ created key ops (t.apply now op).value) :
        life key g ((now, op) :: ops) t = life key g ops (t.apply now op).value :=
      life_cons_of_unborn ops settled (created_ge ops settled' g mem)
    rcases begins_or_old settled now op key with ⟨c, before, after⟩ | old
    · rw [created_cons_of_begin ops before after] at mem
      rcases List.mem_cons.mp mem with rfl | mem
      · rw [life_cons_of_live ops (.inr (by simp [live?_self after]))]
        have passage := passage_apply settled now op key
        rw [before, after] at passage
        obtain ⟨_, alive, known, speech⟩ := passage.of_begin
        have phase : c.phase = (moment key op (t.apply now op).log).turn .fresh := by
          rw [alive.phase, known]
          rfl
        have rest := course_of_present ops settled' after
        rw [phase] at speech rest
        refine ⟨.step speech rest, fun m ms first channel_le => ?_⟩
        obtain ⟨rfl, _⟩ := List.cons.inj first
        exact sent_of_begin settled channel_le before after
      · rw [later mem]
        exact ih settled' g mem
    · rw [created_cons_of_old ops old] at mem
      rw [later mem]
      exact ih settled' g mem

theorem lives_to_come (ops : List (Nat × Op)) (settled : t.Settled) :
    ((created key ops (t.apply now op).value).flatMap fun g =>
        (life key g ((now, op) :: ops) t).flatMap Moment.events) =
      (created key ops (t.apply now op).value).flatMap fun g =>
        (life key g ops (t.apply now op).value).flatMap Moment.events := by
  have later : ∀ g ∈ created key ops (t.apply now op).value, _ :=
    created_ge ops (settled_apply settled now op)
  rw [List.flatMap_def, List.flatMap_def]
  exact congrArg List.flatten <| List.map_congr_left fun g mem => by
    rw [life_cons_of_unborn ops settled (later g mem)]

/-- The events about a key are those of its lives, one after the other. -/
theorem eventsOf_run (ops : List (Nat × Op)) (settled : t.Settled) (key : Key) :
    eventsOf key (run ops t).log =
      (((t.find? key).map Channel.generation).toList ++ created key ops t).flatMap fun g =>
        (life key g ops t).flatMap Moment.events := by
  induction ops generalizing t with
  | nil =>
    cases t.find? key <;> rfl
  | cons step ops ih =>
    obtain ⟨now, op⟩ := step
    have settled' := settled_apply settled now op
    have passage := passage_apply settled now op key
    have ofLog : (moment key op (t.apply now op).log).events =
      eventsOf key (t.apply now op).log := rfl
    show eventsOf key ((t.apply now op).log ++ (run ops (t.apply now op).value).log) = _
    rw [eventsOf_append, ih settled']
    cases before : t.find? key with
    | none =>
      cases after : (t.apply now op).value.find? key with
      | none =>
        rw [before, after] at passage
        rw [passage.of_absent, created_cons_of_old ops (by simp [after])]
        exact (lives_to_come ops settled).symm
      | some c =>
        rw [created_cons_of_begin ops before after]
        simp only [Option.map_none, Option.map_some, Option.toList_none, Option.toList_some,
          List.nil_append, List.cons_append, List.flatMap_cons, lives_to_come ops settled,
          life_cons_of_live ops (.inr (Option.isSome_of_eq_some (live?_self after))), ofLog,
          List.append_assoc]
    | some c =>
      have begun : (t.live? key c.generation).isSome := by simp [live?_self before]
      cases after : (t.apply now op).value.find? key with
      | none =>
        have gone := live?_of_missing after c.generation
        have nothing := (life_of_gone ops settled' (Nat.lt_of_lt_of_le
          (settled.generations key c before) (nextGeneration_le t now op)) gone).1
        rw [created_cons_of_old ops (by simp [after])]
        simp only [Option.map_none, Option.map_some, Option.toList_none, Option.toList_some,
          List.nil_append, List.cons_append, List.flatMap_cons, lives_to_come ops settled,
          life_cons_of_live ops (.inl begun), ofLog, nothing, List.flatMap_nil, List.append_nil]
      | some c' =>
        rw [before, after] at passage
        have same := passage.of_life.1
        rw [created_cons_of_old ops (by simp [after, before, same])]
        simp only [Option.map_some, Option.toList_some, List.cons_append, List.nil_append,
          List.flatMap_cons, lives_to_come ops settled, life_cons_of_live ops (.inl begun), ofLog,
          same, List.append_assoc]

theorem channel_le_of_brings (brought : op.brings key = true) :
    key.channel ≤ Packet.maxChannel := by
  cases op with
  | shutdown reason => cases brought
  | request r =>
    cases r with
    | datagram sender bytes =>
      cases parsed : Packet.parse bytes with
      | error _ => simp [Op.brings, parsed, Except.toOption] at brought
      | ok p =>
        obtain rfl : ⟨sender, p.header.channel⟩ = key := by
          simpa [Op.brings, parsed, Except.toOption] using brought
        exact (Packet.wellFormed_of_parse parsed).channel_le
    | _ => cases brought

theorem channel_le_of_heard (ops : List (Nat × Op)) :
    ∀ m ∈ life key g ops t, m.heard = true → key.channel ≤ Packet.maxChannel := by
  induction ops generalizing t with
  | nil => nofun
  | cons step ops ih =>
    obtain ⟨now, op⟩ := step
    intro m mem heard
    simp only [life] at mem
    split at mem
    · rcases List.mem_cons.mp mem with rfl | mem
      · exact channel_le_of_brings heard
      · exact ih m mem heard
    · exact ih m mem heard

/-- As a life begins with a packet that is sent, the first packet that is heard makes the
acquaintance. -/
theorem acquainted_iff {before after : List Moment} {m : Moment} {reachable : Prop}
    (sent : ∀ first rest, before ++ m :: after = first :: rest → reachable → first.sent = true)
    (heard : ∀ x ∈ before ++ m :: after, x.heard = true → reachable) :
    acquainted (before ++ [m]) = true ∧ acquainted before = false ↔
      m.heard = true ∧ before.any Moment.heard = false := by
  have greeting (x : Moment) (mem : x ∈ before) (news : x.heard = true) :
      before.any Moment.sent = true := by
    have reached := heard x (List.mem_append_left _ mem) news
    cases before with
    | nil => cases mem
    | cons first rest => simp [sent first _ rfl reached]
  simp only [acquainted, List.any_append, List.any_cons, List.any_nil, Bool.or_false]
  cases earlier : before.any Moment.heard with
  | true =>
    obtain ⟨x, mem, news⟩ := List.any_eq_true.mp earlier
    simp [greeting x mem news]
  | false =>
    cases news : m.heard with
    | false => simp
    | true =>
      have reached := heard m (by simp) news
      cases before with
      | nil => simp [sent m after rfl reached]
      | cons first rest => simp [sent first _ rfl reached]

end Lives

/-- Over any run of a new table, the events about a key are one word for each generation that was
created for it, in the order of the generations. A generation that was destroyed has a word that
ends with the end of its connection, if it had one, and the connection is reported in the very step
after which packets went in both directions. -/
theorem events_form_words (config : Config) (clock : Clock) (ops : List (Nat × Op)) (key : Key) :
    let t : Table := { config, clock }
    let gs := created key ops t
    (eventsOf key (run ops t).log = gs.flatMap fun g => (life key g ops t).flatMap Moment.events) ∧
      gs.Pairwise (· < ·) ∧
      ∀ g ∈ gs,
        Word key ((run ops t).value.live? key g).isNone
            ((life key g ops t).flatMap Moment.events) ∧
          ∀ before m after, life key g ops t = before ++ m :: after →
            (.connected key ∈ m.events ↔
              acquainted (before ++ [m]) = true ∧ acquainted before = false) := by
  intro t gs
  have settled : t.Settled := settled_empty config clock
  refine ⟨eventsOf_run ops settled key, created_ascending ops settled, fun g mem => ?_⟩
  obtain ⟨course, sent⟩ := course_of_created ops settled g mem
  have heard : ∀ m ∈ life key g ops t, m.heard = true → _ := channel_le_of_heard ops
  refine ⟨course.word, fun before m after split => ?_⟩
  rw [split] at course sent heard
  rw [course.mem_connected_iff, acquainted_iff sent heard]
  exact and_iff_right rfl

end ReliableDatagram.Table
