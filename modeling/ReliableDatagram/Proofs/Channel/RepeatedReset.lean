import ReliableDatagram.Proofs.Channel.NewestStream
import ReliableDatagram.Proofs.Channel.Patience

/-!
# Repeated requests to start over

Nothing in a request to start over tells a copy of it from a new one, and every one of them makes
the sender begin an empty stream. `reset_again_iff` says when a copy does no harm: exactly if the
sender has launched nothing since the first one arrived.
-/

namespace ReliableDatagram.Channel

open PacketId

variable {n : UInt8} {st : List Packet} {ctx : Context} {c : Channel} {p : Packet}

theorem launched_onPacket (ctx : Context) (c : Channel) (p : Packet) :
    launched (c.onPacket ctx p).log = launched ((c.heard ctx).dispatch ctx p).log := by
  unfold onPacket
  rw [Logged.log_bind, launched_append, launched_checkConnected, List.append_nil]
  rfl

theorem patient_run {config : Config} (clock : Clock) (ops : List (Nat × Op))
    (valid : 0 < config.defaultQueueSize) (patient : Patient c.sender) :
    Patient (run config clock ops c).value.sender := by
  induction ops generalizing c with
  | nil => exact patient
  | cons step ops ih => exact ih (patient_apply ⟨step.1, config, clock⟩ step.2 valid patient)

section Reset

variable (sound : c.Sound) (known : (Op.packet p).Sound c.key) (kind : p.header.kind = .reset)
include sound known kind

/-- A request to start over is answered, and the parked writes are sent by a sender that has started
over. -/
theorem exists_onPacket_reset (ctx : Context) :
    ∃ d : Channel, d.Sound ∧ d.key = c.key ∧ d.sender = c.sender.startOver ∧
      (c.onPacket ctx p).value.sender = (d.flush ctx).value.sender ∧
      packets (c.onPacket ctx p).log = p.ackReset :: packets (d.flush ctx).log ∧
      launched (c.onPacket ctx p).log = launched (d.flush ctx).log := by
  refine ⟨{ ((c.heard ctx).transmit ctx p.ackReset).value with sender := c.sender.startOver },
    ?_, rfl, rfl, ?_, ?_, ?_⟩
  · refine sound.mono rfl (by simp [Sender.startOver]) (fun r held => ⟨r, held, rfl⟩) ?_
    exact fun w waits => waits
  · rw [onPacket_sender]
    simp only [dispatch, kind]
    rfl
  · rw [packets_onPacket]
    simp only [dispatch, kind, onReset, Logged.log_bind, packets_append,
      packets_transmit known.1.ackReset]
    rfl
  · have other : p.ackReset.header.kind ≠ .data := fun same => Packet.Kind.noConfusion same
    rw [launched_onPacket]
    simp only [dispatch, kind, onReset, Logged.log_bind, launched_append,
      launched_transmit known.1.ackReset other]
    rfl

/-- After a request to start over, the sender is in a stream of what it launched in answer. -/
theorem inStream_onPacket_reset (ctx : Context) :
    InStream c.key.channel (launched (c.onPacket ctx p).log) (c.onPacket ctx p).value := by
  obtain ⟨d, dSound, key, sender, value, _, sent⟩ := exists_onPacket_reset sound known kind ctx
  have empty : InStream c.key.channel [] d := by
    refine inStream_nil _ ⟨?_, ?_⟩
    · rw [sender]
      rfl
    · rw [sender]
      exact fun x held => (List.not_mem_nil held).elim
  have moves : Moves ctx .tick d (d.flush ctx).log [] (d.flush ctx).value := moves_flush d .tick
  have flushed := moves.outward_induction (P := fun log d => InStream c.key.channel (launched log) d)
    [] dSound trivial (fun same outward inStream => by
      rw [launched_append]
      exact outward.inStream trivial inStream (by rw [same, key])) empty
  rw [sent]
  refine ⟨flushed.stream, ?_, ?_⟩
  · rw [value]
    exact flushed.sends
  · rw [value]
    exact flushed.places

/-- A request to start over leaves a sender as it is exactly if its stream has not begun. -/
theorem sender_onPacket_reset_iff (ctx : Context) (inStream : InStream n st c)
    (patient : Patient c.sender) :
    ((c.onPacket ctx p).value.sender = c.sender ↔ st = []) ∧
      (st = [] → packets (c.onPacket ctx p).log = [p.ackReset]) := by
  obtain ⟨d, dSound, key, sender, value, answer, sent⟩ := exists_onPacket_reset sound known kind ctx
  cases st with
  | nil =>
    -- nothing is unacknowledged, so nothing waits either
    have empty := inStream.sends.contents_eq_nil
    have idle : d.sender.parked = [] := by
      rw [sender]
      exact patient.parked_eq_nil empty
    have flushed : d.flush ctx = pure { d with sender.parked := [] } := by
      rw [flush, idle]
      rfl
    have same : d.sender = c.sender := by
      have start : c.sender.nextId = .streamStart := inStream.sends.nextId
      have entries : c.sender.unacked.entries = [] := List.map_eq_nil_iff.mp empty
      rw [sender, Sender.startOver, SendQueue.clear, ← start, ← entries]
    refine ⟨⟨fun _ => rfl, fun _ => ?_⟩, fun _ => ?_⟩
    · rw [value, flushed, Logged.value_pure, ← same]
      simp only [← idle]
    · rw [answer, flushed]
      rfl
  | cons q st =>
    have begun : q :: st ≠ [] := List.cons_ne_nil q st
    refine ⟨⟨fun unchanged => ?_, fun none => absurd none begun⟩, fun none => absurd none begun⟩
    have advances : Advances d.sender (packets (d.flush ctx).log) (d.flush ctx).value.sender :=
      advances_flush dSound.channel_le dSound.parked
    rw [← value, unchanged, sender] at advances
    have none : (packets (d.flush ctx).log).length = 0 := by
      have waiting := advances.parked
      simp only [Sender.startOver] at waiting
      omega
    have start := (advances.places 0 rfl).1
    rw [none, inStream.sends.nextId] at start
    exact absurd start (nth_succ_ne _)

end Reset

/-- Processing a request to start over again, after mild operations, leaves the sender as it is
exactly if nothing was launched since the first time. All that was launched is forgotten. -/
theorem reset_again_iff {config : Config} {clock : Clock} {key : Key} {generation start : Nat}
    {before between : List (Nat × Op)} {c : Channel} {r : Packet} (t t' : Nat)
    (valid : config.validate = .ok ()) (channel_le : key.channel ≤ Packet.maxChannel)
    (reached : c = (run config clock before (create key generation config start)).value)
    (known : ∀ step ∈ before ++ between, step.2.Sound key) (kind : r.header.kind = .reset)
    (knownReset : (Op.packet r).Sound key) (mild : ∀ step ∈ between, step.2.Mild) :
    let once := c.onPacket ⟨t, config, clock⟩ r
    let later := run config clock between once.value
    let again := later.value.onPacket ⟨t', config, clock⟩ r
    (again.value.sender = later.value.sender ↔ launched (once.log ++ later.log) = []) ∧
      (launched (once.log ++ later.log) = [] → packets again.log = [r.ackReset]) ∧
      InStream key.channel (launched again.log) again.value := by
  intro once later again
  have positive := Config.defaultQueueSize_pos valid
  have own : c.key = key := by rw [reached, key_run]; rfl
  have sound : c.Sound := by
    rw [reached]
    exact Sound.run config clock (Table.sound_create channel_le)
      fun step mem => known step (List.mem_append_left _ mem)
  have patient : Patient c.sender := by
    rw [reached]
    exact patient_run clock before positive (patient_create key generation start positive)
  subst own
  have onceSound : once.value.Sound := (moves_onPacket _ c r).sound sound knownReset
  have onceKey : once.value.key = c.key := (moves_onPacket _ c r).key
  have knownBetween : ∀ step ∈ between, step.2.Sound once.value.key := fun step mem => by
    rw [onceKey]
    exact known step (List.mem_append_right _ mem)
  have laterKey : later.value.key = c.key := (key_run config clock between _).trans onceKey
  have laterSound : later.value.Sound := Sound.run config clock onceSound knownBetween
  have laterPatient : Patient later.value.sender :=
    patient_run clock between positive (patient_onPacket r patient)
  have inStream := (inStream_onPacket_reset sound knownReset kind ⟨t, config, clock⟩).run config
    clock onceSound knownBetween mild (congrArg Key.channel onceKey)
  rw [← launched_append] at inStream
  rw [← laterKey] at knownReset
  have unchanged := sender_onPacket_reset_iff laterSound knownReset kind ⟨t', config, clock⟩
    inStream laterPatient
  refine ⟨unchanged.1, unchanged.2, ?_⟩
  rw [← laterKey]
  exact inStream_onPacket_reset laterSound knownReset kind ⟨t', config, clock⟩

section Copies

def peer : Key := ⟨⟨.v4 1, 1⟩, 1⟩

/-- A channel that has written once. -/
def begunOnce : Channel := (run {} ⟨0, 0⟩ [(0, .write ⟨0, [1]⟩)] (create peer 1 {} 0)).value

/-- The channel after it was asked to start over. -/
def restarted : Logged Effect Channel := begunOnce.onPacket ⟨millisecond, {}, ⟨0, 0⟩⟩ (.reset 1 7)

theorem sound_request (key : Key) (own : key.channel = 1) : (Op.packet (.reset 1 7)).Sound key :=
  ⟨Packet.wellFormed_reset (by decide), own.symm⟩

/-- As long as nothing else is written, a copy of the request is answered and changes nothing. -/
theorem reset_again_before_write :
    let later := run {} ⟨0, 0⟩ [(2 * millisecond, .tick)] restarted.value
    let again := later.value.onPacket ⟨3 * millisecond, {}, ⟨0, 0⟩⟩ (.reset 1 7)
    again.value.sender = later.value.sender ∧ packets again.log = [(Packet.reset 1 7).ackReset] := by
  have reached : begunOnce = (run {} ⟨0, 0⟩ [(0, .write ⟨0, [1]⟩)] (create peer 1 {} 0)).value := rfl
  have known : ∀ step ∈ [(0, Op.write ⟨0, [1]⟩)] ++ [(2 * millisecond, Op.tick)],
      step.2.Sound peer := by
    intro step mem
    rcases List.mem_cons.mp mem with rfl | mem
    · exact (by decide : [1].length ≤ 0xffff)
    · rcases List.mem_singleton.mp mem with rfl
      trivial
  have mild : ∀ step ∈ [(2 * millisecond, Op.tick)], step.2.Mild := by
    intro step mem
    rcases List.mem_singleton.mp mem with rfl
    trivial
  obtain ⟨unchanged, answered, _⟩ := reset_again_iff millisecond (3 * millisecond) (by rfl)
    (by decide) reached known rfl (sound_request peer rfl) mild
  exact ⟨unchanged.mpr (by decide +kernel), answered (by decide +kernel)⟩

/-- A copy that arrives after a write makes the sender forget what was written. -/
theorem not_reset_again_harmless :
    ¬∀ (config : Config) (clock : Clock) (key : Key) (generation start : Nat)
        (before between : List (Nat × Op)) (c : Channel) (r : Packet) (t t' : Nat),
      config.validate = .ok () → key.channel ≤ Packet.maxChannel →
      c = (run config clock before (create key generation config start)).value →
      (∀ step ∈ before ++ between, step.2.Sound key) → r.header.kind = .reset →
      (Op.packet r).Sound key → (∀ step ∈ between, step.2.Mild) →
      let later := run config clock between (c.onPacket ⟨t, config, clock⟩ r).value
      let again := later.value.onPacket ⟨t', config, clock⟩ r
      ∀ x ∈ later.value.sender.unacked.contents, x ∈ again.value.sender.unacked.contents := by
  intro harmless
  have kept := harmless {} ⟨0, 0⟩ peer 1 0 [] [(2 * millisecond, .write ⟨1, [2]⟩)]
    (create peer 1 {} 0) (.reset 1 7) millisecond (3 * millisecond) rfl (by decide) rfl ?_ rfl
    (sound_request peer rfl) ?_
  · have lost := kept (.streamStart, (Packet.data 1 .streamStart 2 [2]).encode) (by decide +kernel)
    revert lost
    decide +kernel
  · intro step mem
    rcases List.mem_singleton.mp mem with rfl
    exact (by decide : [2].length ≤ 0xffff)
  · intro step mem
    rcases List.mem_singleton.mp mem with rfl
    trivial

end Copies

end ReliableDatagram.Channel
