import ReliableDatagram.Proofs.Channel.Generation
import ReliableDatagram.Proofs.Channel.Tickets
import ReliableDatagram.Proofs.Table.Visits

/-!
# Channels do not influence each other

What a run does for one key is what the key's own concerns lead to, one after the other, when they
are attended to without a table. So two runs that bring the same to a key do the same for it,
whatever they do for other keys: only the generation may differ, which all keys share.
-/

namespace ReliableDatagram

/-- Whether an effect has to do with a key: its packets, the events about it, and the answers to
the writes with these tickets. -/
def Effect.regards (key : Key) (tickets : Nat → Bool) (e : Effect) : Bool :=
  e.isPacketTo key || e.tellsOf key || e.reply?.any fun reply => tickets reply.1

namespace Channel

/-- The channel but for its generation. -/
def nameless (c : Channel) : Channel := c.withGeneration 0

end Channel

namespace Table

open Channel

/-- What is brought to a key in the course of a run, and when. -/
def concerns (key : Key) : List (Nat × Op) → Table → List (Nat × Concern)
  | [], _ => []
  | (now, op) :: ops, t =>
    ((t.concern? key op).map (now, ·)).toList ++ concerns key ops (t.apply now op).value

/-- Attends to one concern after the other, with no table around. -/
def attend (config : Config) (clock : Clock) (key : Key) :
    List (Nat × Concern) → Option Channel → Logged Effect (Option Channel)
  | [], c? => pure c?
  | (now, q) :: qs, c? => do
    attend config clock key qs (← serve ⟨now, config, clock⟩ key 0 c? q)

/-- What callers make sure of: connects name a channel number that packets can carry, and the
writes to other keys have other tickets. -/
def Op.Minds (key : Key) (tickets : Nat → Bool) : Op → Prop
  | .request (.connect k) => k.channel ≤ Packet.maxChannel
  | .request (.write k _ w) => k ≠ key → tickets w.ticket = false
  | _ => True

variable {t t' : Table} {key k : Key} {tickets : Nat → Bool} {now : Nat} {op : Op} {ctx : Context}
  {log : List Effect}

section Names

theorem tickOne_withGeneration (g : Nat) (c : Channel) :
    tickOne ctx (c.withGeneration g) = Option.map (withGeneration g) <$> tickOne ctx c := by
  unfold tickOne
  rw [tick_withGeneration]
  refine rename_bind ?_
  generalize (c.tick ctx).value = outcome
  obtain ⟨d, reason?⟩ := outcome
  cases reason? <;> rfl

/-- What is done for a key does not depend on the generations that are given out. -/
theorem serve_withGeneration (ctx : Context) (key : Key) (g generation : Nat)
    (c? : Option Channel) (q : Concern) :
    serve ctx key g (c?.map (withGeneration g)) q =
      Option.map (withGeneration g) <$> serve ctx key generation c? q := by
  have lift {f : Channel → Logged Effect Channel} (blind : Blind f) (c : Channel) :
      (some <$> f (c.withGeneration g) : Logged Effect (Option Channel)) =
        Option.map (withGeneration g) <$> some <$> f c := by
    rw [blind]
    rfl
  have current (b : Bool) : ((c?.map (withGeneration g)).filter fun _ => b) =
      (c?.filter fun _ => b).map (withGeneration g) := by
    cases c? <;> cases b <;> rfl
  cases q with
  | packet p =>
    cases c? with
    | some c => exact lift (Blind.onPacket p) c
    | none =>
      simp only [serve, Option.map_none]
      split
      · exact lift (Blind.onPacket p) (Channel.create key generation ctx.config ctx.now)
      · rfl
  | connect =>
    cases c? with
    | some c => rfl
    | none =>
      exact lift Blind.ping (Channel.create key generation ctx.config ctx.now)
  | write b w =>
    simp only [serve, current]
    split
    · rfl
    · cases c?.filter fun _ => b with
      | none => rfl
      | some c => exact lift (Blind.write w) c
  | close b =>
    simp only [serve, current]
    cases c?.filter fun _ => b <;> rfl
  | tick =>
    cases c? with
    | none => rfl
    | some c => exact tickOne_withGeneration g c
  | shutdown reason =>
    cases c? <;> rfl

end Names

section Apart

/-- The channels send what is theirs only, and none but the channel with the key answers writes
with these tickets. -/
structure Apart (key : Key) (tickets : Nat → Bool) (t : Table) : Prop where
  order : t.Ordered
  sound : ∀ k c, t.find? k = some c → c.Sound
  others : ∀ k c, t.find? k = some c → k ≠ key → ∀ w ∈ c.sender.parked, tickets w.ticket = false

theorem apart_empty (config : Config) (clock : Clock) : Apart key tickets { config, clock } :=
  ⟨ordered_empty config clock,
    fun k _ found => (nomatch (find?_empty config clock k).symm.trans found),
    fun k _ found => (nomatch (find?_empty config clock k).symm.trans found)⟩

/-- What an operation of a channel may be asked to do. -/
theorem sound_of_asks {q : Concern} {cop : Channel.Op} (concerned : t.concern? k op = some q)
    (asks : q.Asks cop) : cop.Sound k := by
  cases asks with
  | packet =>
    obtain ⟨_, _, parsed, own⟩ := concern?_eq_packet concerned
    exact ⟨Packet.wellFormed_of_parse parsed, own⟩
  | connect => trivial
  | write fits => exact fits
  | tick => trivial

theorem channel_le_of_opens {q : Concern} (concerned : t.concern? k op = some q)
    (minds : op.Minds key tickets) (opens : q.opens = true) : k.channel ≤ Packet.maxChannel := by
  cases q with
  | packet p =>
    obtain ⟨_, _, parsed, own⟩ := concern?_eq_packet concerned
    exact own ▸ (Packet.wellFormed_of_parse parsed).channel_le
  | connect =>
    rw [concern?_eq_connect concerned] at minds
    exact minds
  | _ => cases opens

theorem tickets_of_asks {q : Concern} {cop : Channel.Op} (concerned : t.concern? k op = some q)
    (minds : op.Minds key tickets) (other : k ≠ key) (asks : q.Asks cop) :
    ∀ w ∈ cop.writes, tickets w.ticket = false := by
  cases asks with
  | write fits =>
    intro w mem
    rcases List.mem_singleton.mp mem with rfl
    obtain ⟨generation, rfl⟩ := concern?_eq_write concerned
    exact minds other
  | _ => nofun

/-- What a channel does in a step is its own. -/
structure Own (key : Key) (tickets : Nat → Bool) (k : Key) (x : Logged Effect (Option Channel)) :
    Prop where
  sound : ∀ c, x.value = some c → c.Sound
  speaks : ∀ e ∈ x.log, e.Speaks k
  parked : k ≠ key → ∀ c, x.value = some c → ∀ w ∈ c.sender.parked, tickets w.ticket = false
  replies : k ≠ key → ∀ ticket result, .reply ticket result ∈ x.log → tickets ticket = false

theorem own_of_moves {c : Channel} {cop : Channel.Op} {x : Logged Effect Channel}
    {ws : List ParkedWrite} (moves : Moves ctx cop c x.log ws x.value) (sound : c.Sound)
    (asked : cop.Sound c.key)
    (known : c.key ≠ key → ∀ w ∈ c.sender.parked ++ cop.writes, tickets w.ticket = false) :
    Own key tickets c.key (some <$> x) := by
  refine ⟨?_, moves.speaks sound asked, ?_, ?_⟩
  · rintro _ ⟨⟩
    exact moves.sound sound asked
  · rintro other _ ⟨⟩ w waits
    exact known other w (moves.parked w waits)
  · intro other ticket result mem
    obtain ⟨w, asked, rfl⟩ := moves.replies mem
    exact known other w asked

theorem own_of_leave {c c' : Channel} {reason : DisconnectReason}
    (moves : Moves ctx .tick c log [] c') (sound : c.Sound)
    (known : c.key ≠ key → ∀ w ∈ c.sender.parked, tickets w.ticket = false) :
    Own key tickets c.key ⟨none, log ++ (c'.destroy reason).log⟩ := by
  have waited (w : ParkedWrite) (waits : w ∈ c'.sender.parked) : w ∈ c.sender.parked := by
    simpa [Channel.Op.writes] using moves.parked w waits
  refine ⟨fun d kept => absurd kept.symm (Option.some_ne_none d), fun e mem => ?_,
    fun _ d kept => absurd kept.symm (Option.some_ne_none d), fun other ticket result mem => ?_⟩
  · rcases List.mem_append.mp mem with said | gone
    · exact moves.speaks sound trivial e said
    · exact moves.key ▸ speaks_destroy c' reason e gone
  · rcases List.mem_append.mp mem with said | gone
    · obtain ⟨w, waits, rfl⟩ := moves.replies said
      exact known other w (by simpa [Channel.Op.writes] using waits)
    · obtain ⟨w, waits, rfl⟩ := ticket_of_mem_destroy gone
      exact known other w (waited w waits)

theorem Apart.own (apart : Apart key tickets t) (minds : op.Minds key tickets) (now : Nat)
    (k : Key) : Own key tickets k (t.part now k op) := by
  have still : Own key tickets k (pure (t.find? k)) :=
    ⟨apart.sound k, nofun, fun other c found => apart.others k c found other, nofun⟩
  cases concerned : t.concern? k op with
  | none => rwa [part_of_unconcerned concerned]
  | some q =>
    rw [part_of_concerned concerned]
    have served := served_serve (t.context now) k t.nextGeneration (t.find? k) q
    generalize serve (t.context now) k t.nextGeneration (t.find? k) q = x at served ⊢
    cases served with
    | idle => exact still
    | refuse =>
      obtain ⟨_, rfl⟩ := concern?_eq_write concerned
      refine ⟨still.sound, fun e mem => ?_, still.parked, fun other ticket result mem => ?_⟩
      · rcases List.mem_singleton.mp mem with rfl
        trivial
      · cases List.mem_singleton.mp mem
        exact minds other
    | @act _ _ c _ _ asks found moves =>
      have asked := sound_of_asks concerned asks
      have known (other : k ≠ key) : ∀ w ∈ c.sender.parked ++ _, tickets w.ticket = false :=
        List.forall_mem_append.mpr
          ⟨apart.others k c found other, tickets_of_asks concerned minds other asks⟩
      obtain ⟨_, rfl⟩ := mem_of_find? found
      exact own_of_moves moves (apart.sound _ c found) asked known
    | create asks opens missing moves =>
      exact own_of_moves moves (sound_create (channel_le_of_opens concerned minds opens))
        (sound_of_asks concerned asks) fun other => tickets_of_asks concerned minds other asks
    | @leave _ c _ _ _ found moves =>
      have known := apart.others k c found
      obtain ⟨_, rfl⟩ := mem_of_find? found
      exact own_of_leave moves (apart.sound _ c found) known

/-- What others do is none of a key's business. -/
theorem Own.not_regards {x : Logged Effect (Option Channel)} (own : Own key tickets k x)
    (other : k ≠ key) : ∀ e ∈ x.log, e.regards key tickets = false := by
  intro e logged
  have speaks := own.speaks e logged
  have reply : (e.reply?.any fun reply => tickets reply.1) = false := by
    cases e with
    | reply ticket result => exact own.replies other ticket result logged
    | _ => rfl
  simp only [Effect.regards, speaks.not_isPacketTo other, speaks.not_tellsOf other, reply,
    Bool.or_false]

theorem Apart.apply (apart : Apart key tickets t) (minds : op.Minds key tickets) (now : Nat) :
    Apart key tickets (t.apply now op).value := by
  have own := apart.own minds now
  refine ⟨ordered_apply apart.order now op, fun k c found => ?_, fun k c found other => ?_⟩
  · rw [find?_apply apart.order] at found
    exact (own k).sound c found
  · rw [find?_apply apart.order] at found
    exact (own k).parked other c found

end Apart

/-- A table keeps its configuration and its clock. -/
theorem context_apply (t : Table) (now : Nat) (op : Op) :
    (t.apply now op).value.context = t.context := by
  cases op with
  | shutdown reason => rfl
  | request r => exact view_perform (fun _ _ _ _ => rfl) t now r

section Attend

/-- To attend to what a run brings to a key. -/
def attendRun (key : Key) (ops : List (Nat × Op)) (t : Table) : Logged Effect (Option Channel) :=
  attend t.config t.clock key (concerns key ops t) ((t.find? key).map nameless)

/-- One step does for a key what attending to its concern does. -/
theorem attendRun_cons (order : t.Ordered) (now : Nat) (op : Op) (ops : List (Nat × Op))
    (key : Key) :
    attendRun key ((now, op) :: ops) t =
      ⟨(attendRun key ops (t.apply now op).value).value,
        (t.part now key op).log ++ (attendRun key ops (t.apply now op).value).log⟩ := by
  have context := context_apply t now op
  have config : (t.apply now op).value.config = t.config :=
    congrArg (fun context => (context now).config) context
  have clock : (t.apply now op).value.clock = t.clock :=
    congrArg (fun context => (context now).clock) context
  simp only [attendRun, concerns, config, clock, find?_apply order]
  cases concerned : t.concern? key op with
  | none =>
    rw [part_of_unconcerned concerned]
    rfl
  | some q =>
    rw [part_of_concerned concerned]
    have same := serve_withGeneration (t.context now) key 0 t.nextGeneration (t.find? key) q
    show attend t.config t.clock key ((now, q) :: concerns key ops (t.apply now op).value)
      ((t.find? key).map (withGeneration 0)) = _
    show (serve (t.context now) key 0 ((t.find? key).map (withGeneration 0)) q >>=
      attend t.config t.clock key (concerns key ops (t.apply now op).value)) = _
    rw [same]
    rfl

/-- What a run does for a key, its ticks in any order, comes from what it brings to the key. -/
theorem runs_attendRun {ops : List (Nat × Op)} (runs : Runs ops t log t')
    (apart : Apart key tickets t) (minds : ∀ step ∈ ops, step.2.Minds key tickets) :
    (t'.find? key).map nameless = (attendRun key ops t).value ∧
      log.filter (Effect.regards key tickets) =
        (attendRun key ops t).log.filter (Effect.regards key tickets) := by
  induction runs with
  | nil => exact ⟨rfl, rfl⟩
  | @step now op ops t t' log rest ih =>
    obtain ⟨here, later⟩ := List.forall_mem_cons.mp minds
    obtain ⟨value, logs⟩ := ih (apart.apply here now) later
    have seen : (t.apply now op).log.filter (Effect.regards key tickets) =
        (t.part now key op).log.filter (Effect.regards key tickets) := filter_apply apart.order
      fun k other => (apart.own here now k).not_regards other
    rw [attendRun_cons apart.order]
    exact ⟨value, by rw [List.filter_append, List.filter_append, seen, logs]⟩
  | @tick now visits ops t t' log visited rest ih =>
    obtain ⟨here, later⟩ := List.forall_mem_cons.mp minds
    have same := tickIn_value apart.order visited now
    have after := apart.apply here now
    rw [same] at ih
    obtain ⟨value, logs⟩ := ih after later
    have seen : (t.tickIn now visits).log.filter (Effect.regards key tickets) =
        (t.part now key (.request .tick)).log.filter (Effect.regards key tickets) :=
      filter_tickIn apart.order visited fun k other => (apart.own here now k).not_regards other
    rw [attendRun_cons apart.order]
    exact ⟨value, by rw [List.filter_append, List.filter_append, seen]; exact congrArg _ logs⟩

end Attend

section Crowd

def friend : Key := ⟨⟨.v4 1, 7⟩, 3⟩

def stranger : Key := ⟨⟨.v4 2, 7⟩, 3⟩

/-- A run for one key only. -/
def alone : List (Nat × Op) :=
  [(0, .request (.connect friend)),
    (millisecond, .request (.write friend 1 ⟨7, [1]⟩)),
    (2 * second, .request .tick)]

/-- The same for this key, and as much for another one, which is first and so changes the
generation. -/
def crowd : List (Nat × Op) :=
  [(0, .request (.connect stranger)),
    (0, .request (.connect friend)),
    (millisecond, .request (.write friend 2 ⟨7, [1]⟩)),
    (second, .request (.write stranger 1 ⟨8, [2]⟩)),
    (2 * second, .request .tick)]

end Crowd

/-- Two runs of new tables that bring the same to a key at the same times, and otherwise differ as
they like, down to the order in which ticks visit the channels: the key has a channel after the one
run just if it has one after the other, the two are equal but for the generation, and all that has
to do with the key was done in the same order, its packets, events and answers to writes. -/
theorem unaffected_by_others (config : Config) (clock : Clock) (key : Key) (tickets : Nat → Bool)
    {ops ops' : List (Nat × Op)} {log log' : List Effect} {t t' : Table}
    (runs : Runs ops { config, clock } log t) (runs' : Runs ops' { config, clock } log' t')
    (minds : ∀ step ∈ ops ++ ops', step.2.Minds key tickets)
    (same : concerns key ops { config, clock } = concerns key ops' { config, clock }) :
    (t.find? key).map nameless = (t'.find? key).map nameless ∧
      log.filter (Effect.regards key tickets) = log'.filter (Effect.regards key tickets) := by
  obtain ⟨first, second⟩ := List.forall_mem_append.mp minds
  obtain ⟨value, logs⟩ := runs_attendRun runs (apart_empty config clock) first
  obtain ⟨value', logs'⟩ := runs_attendRun runs' (apart_empty config clock) second
  have attended : attendRun key ops { config, clock } = attendRun key ops' { config, clock } := by
    unfold attendRun
    rw [same]
  rw [value, value', logs, logs', attended]
  exact ⟨rfl, rfl⟩

/-- The tick of the crowd visits the channels from the last to the first. -/
theorem unaffected_by_crowd :
    ∃ log t, Runs crowd { config := {}, clock := ⟨0, 0⟩ } log t ∧
      (t.find? friend).map nameless =
        ((run alone { config := {}, clock := ⟨0, 0⟩ }).value.find? friend).map nameless ∧
      log.filter (Effect.regards friend (· == 7)) =
        (run alone { config := {}, clock := ⟨0, 0⟩ }).log.filter
          (Effect.regards friend (· == 7)) ∧
      (t.find? friend).map Channel.generation = some 2 := by
  have runs : Runs crowd { config := {}, clock := ⟨0, 0⟩ } _ _ :=
    .step (.step (.step (.step (.tick (List.reverse_perm _) .nil))))
  have generation : ((run crowd { config := {}, clock := ⟨0, 0⟩ }).value.find? friend).map
      Channel.generation = some 2 := by decide +kernel
  have minds : ∀ step ∈ crowd ++ alone, step.2.Minds friend (· == 7) := by
    have channel_le : (3 : UInt8) ≤ Packet.maxChannel := by decide
    have own (generation : Nat) : Op.Minds friend (· == 7)
        (.request (.write friend generation ⟨7, [1]⟩)) := fun other => absurd rfl other
    have foreign : Op.Minds friend (· == 7) (.request (.write stranger 1 ⟨8, [2]⟩)) := fun _ => rfl
    simp only [crowd, alone, List.cons_append, List.nil_append, List.forall_mem_cons]
    exact ⟨channel_le, channel_le, own 2, foreign, trivial, channel_le, own 1, trivial, nofun⟩
  obtain ⟨same, seen⟩ := unaffected_by_others {} ⟨0, 0⟩ friend (· == 7) runs
    (runs_run alone { config := {}, clock := ⟨0, 0⟩ }) minds (by decide +kernel)
  rw [← runs.value (ordered_empty {} ⟨0, 0⟩)] at generation
  exact ⟨_, _, runs, same, seen, generation⟩

end Table

end ReliableDatagram
