import ReliableDatagram.Proofs.Channel.Alignment
import ReliableDatagram.Proofs.Channel.Answers
import ReliableDatagram.Proofs.Clock
import Mathlib.Logic.Function.Iterate

/-!
# Long-lived streams

The receiver compares the timestamp of every packet with that of the stream start, which is never
renewed. `expected_accepted_iff_near` says for which ages of a stream its next packet is still
accepted: those that lie, up to whole rounds of the peer's clock, in the first half of its range.
-/

namespace ReliableDatagram

namespace ReceiveQueue

theorem drain_expected (q : ReceiveQueue) (id : PacketId) :
    (q.drain id).2.1 = PacketId.next^[(q.drain id).1.length] id := by
  induction q, id using ReceiveQueue.drain.induct with
  | case1 q id missing =>
    rw [drain_missing missing]
    rfl
  | case2 q id payload kept payloads after rest drained ih =>
    rw [drain_found kept]
    exact ih

end ReceiveQueue

namespace Channel

variable {ctx : Context} {op : Op} {c c' : Channel} {log : List Effect} {ws : List ParkedWrite}
variable {p : Packet}

/-- A receiver that remembers the timestamp of a stream start does not wait for one. -/
def Anchored (r : Receiver) : Prop := r.startedAt.isSome → r.expected ≠ .streamStart

theorem anchored_new : Anchored {} := nofun

theorem Anchored.of_same {r r' : Receiver} (anchored : Anchored r)
    (startedAt : r'.startedAt = r.startedAt) (expected : r'.expected = r.expected) :
    Anchored r' := by
  unfold Anchored
  rw [startedAt, expected]
  exact anchored

theorem Move.anchored (move : Move ctx op c log ws c') (anchored : Anchored c.receiver) :
    Anchored c'.receiver := by
  cases move with
  | accept =>
    rw [accept_receiver]
    exact fun _ => expected_accept_ne _ _ _
  | acceptStart =>
    rw [acceptStart_receiver]
    exact fun _ => expected_accept_ne _ _ _
  | restart | resetAnswered => exact anchored_new
  | requestReset _ _ idle =>
    rw [requestReset_idle idle]
    exact anchored.of_same rfl rfl
  | resendData => exact anchored.of_same (by simp) (by simp)
  | resendReset =>
    rcases resendReset_value ctx c (ctx.now + c.retransmitTimeout ctx.config) with
      same | ⟨r, attempts, pending, same⟩
    · rwa [same]
    · rw [same]
      exact anchored.of_same rfl rfl
  | tune => exact anchored.of_same (by simp) (by simp)
  | _ => exact anchored.of_same rfl rfl

theorem Moves.anchored (moves : Moves ctx op c log ws c') (anchored : Anchored c.receiver) :
    Anchored c'.receiver := by
  induction moves with
  | none => exact anchored
  | snoc before last ih => exact last.anchored ih

theorem anchored_apply (ctx : Context) (op : Op) (anchored : Anchored c.receiver) :
    Anchored (c.apply ctx op).value.receiver := by
  cases op with
  | packet p => exact (moves_onPacket ctx c p).anchored anchored
  | write w => exact (moves_write ctx c w).anchored anchored
  | ping => exact (moves_ping ctx c .ping (.inl rfl)).anchored anchored
  | tick => exact (moves_tick ctx c).anchored anchored
  | destroy reason => exact anchored.of_same rfl rfl

theorem anchored_run (config : Config) (clock : Clock) (ops : List (Nat × Op))
    (anchored : Anchored c.receiver) : Anchored (run config clock ops c).value.receiver := by
  induction ops generalizing c with
  | nil => exact anchored
  | cons step ops ih => exact ih (anchored_apply _ _ anchored)

theorem place_eq_stale_iff {r : Receiver} {window : Nat} {id : PacketId} {timestamp start : UInt32}
    (started : r.startedAt = some start) (going : r.expected ≠ .streamStart) :
    r.place window id timestamp = .stale ↔
      id ≠ .streamStart ∧ stampedBefore timestamp start = true := by
  have stale : r.isStale timestamp = stampedBefore timestamp start := by
    simp only [Receiver.isStale, started]
  by_cases first : id = .streamStart
  · subst first
    rw [Receiver.place_streamStart, if_neg going]
    constructor
    · intro place
      split at place <;> cases place
    · exact fun both => absurd rfl both.1
  · rw [Receiver.place_of_ne first, if_neg going, stale]
    constructor
    · intro place
      split at place
      · next before => exact ⟨first, before⟩
      · repeat' split at place
        all_goals cases place
    · intro ⟨_, before⟩
      rw [if_pos before]

theorem place_expected {r : Receiver} (window : Nat) {timestamp start : UInt32}
    (started : r.startedAt = some start) (going : r.expected ≠ .streamStart)
    (near : stampedBefore timestamp start = false) :
    r.place window r.expected timestamp = .next := by
  have fresh : r.isStale timestamp = false := by simp only [Receiver.isStale, started, near]
  have here : r.expected.distanceTo r.expected = 0 := by
    have bound := r.expected.raw.toNat_lt
    simp only [PacketId.distanceTo, PacketId.position, PacketId.cycle]
    omega
  rw [Receiver.place_of_ne going, if_neg going, fresh, here]
  rfl

/-- The packet is acknowledged, its payload is the first one that is delivered, and the expected id
moves on by one for each delivered payload. -/
structure Accepts (ctx : Context) (c : Channel) (p : Packet) : Prop where
  acked : .send c.key.addr p.ack.encode ∈ (c.onPacket ctx p).log
  delivers : ∃ more, payloads (c.onPacket ctx p).log = p.payload :: more
  advances : (c.onPacket ctx p).value.receiver.expected =
    PacketId.next^[(payloads (c.onPacket ctx p).log).length] c.receiver.expected

theorem accepts_next (kind : p.header.kind = .data) (id : p.header.id = c.receiver.expected)
    (place : c.placeOf ctx p = .next) : Accepts ctx c p := by
  have onData : (c.heard ctx).dispatch ctx p = (c.heard ctx).accept ctx p := by
    rw [dispatch_data kind]
    simp only [Channel.onData, place_heard place]
  have delivered : payloads (c.onPacket ctx p).log =
      (c.receiver.accept p.header.id p.payload).1 := by
    rw [payloads_onPacket, onData, payloads_accept]
    rfl
  constructor
  · have first : .send c.key.addr p.ack.encode ∈ ((c.heard ctx).accept ctx p).log := by
      rw [log_accept]
      exact List.mem_cons_self
    rw [← onData] at first
    exact List.mem_append_left _ first
  · exact ⟨_, delivered⟩
  · rw [delivered, onPacket_receiver, onData, accept_receiver, ← id]
    exact c.receiver.early.drain_expected p.header.id.next

theorem not_accepts_stale (kind : p.header.kind = .data) (place : c.placeOf ctx p = .stale) :
    ¬Accepts ctx c p := by
  intro accepts
  have silent : payloads (c.onPacket ctx p).log = [] := by
    rw [payloads_onPacket, dispatch_data kind]
    simp only [onData, place_heard place]
    rfl
  obtain ⟨more, delivered⟩ := accepts.delivers
  rw [silent] at delivered
  cases delivered

/-- Let the accepted stream start be stamped at the time `s`. A packet that the peer stamps at a
later time `t` is taken for one of an earlier stream, or is accepted if it is the expected one,
depending on the whole milliseconds between the two. -/
theorem expected_accepted_iff_near {config : Config} {clock : Clock} {key : Key}
    {generation start : Nat} {ops : List (Nat × Op)} {c : Channel}
    (reached : c = (run config clock ops (create key generation config start)).value)
    (peer : Clock) {s t : Nat} (order : s ≤ t)
    (started : c.receiver.startedAt = some (peer.timestamp s)) (ctx : Context) {p : Packet}
    (kind : p.header.kind = .data) (stamp : p.header.timestamp = peer.timestamp t) :
    (p.header.id = c.receiver.expected →
      (Accepts ctx c p ↔
        (peer.reading t - peer.reading s) % (2 * stampRange) ≤ stampRange)) ∧
      (c.placeOf ctx p = .stale ↔ p.header.id ≠ .streamStart ∧
        stampRange < (peer.reading t - peer.reading s) % (2 * stampRange)) := by
  have anchored : Anchored c.receiver := by
    rw [reached]
    exact anchored_run config clock ops anchored_new
  have going : c.receiver.expected ≠ .streamStart := anchored (by rw [started]; rfl)
  have far := peer.stampedBefore_timestamp_iff order
  have stale : c.placeOf ctx p = .stale ↔ p.header.id ≠ .streamStart ∧
      stampRange < (peer.reading t - peer.reading s) % (2 * stampRange) := by
    rw [← far, ← stamp]
    exact place_eq_stale_iff started going
  refine ⟨fun id => ⟨fun accepts => ?_, fun near => ?_⟩, stale⟩
  · refine Nat.le_of_not_lt fun gap => not_accepts_stale kind ?_ accepts
    exact stale.mpr ⟨by rwa [id], gap⟩
  · refine accepts_next kind id ?_
    have fresh : stampedBefore p.header.timestamp (peer.timestamp s) = false := by
      rw [stamp, ← Bool.not_eq_true, far]
      exact Nat.not_lt_of_le near
    rw [placeOf, id]
    exact place_expected _ started going fresh

/-- A channel that accepted the start of a stream at time 0, when the peer's clock shows 7. -/
def begun : Channel :=
  (run {} ⟨0, 0⟩ [(0, .packet (.data 1 .streamStart 7 [1]))]
    (create ⟨⟨.v4 1, 1⟩, 1⟩ 1 {} 0)).value

/-- The next packet of the stream, if the peer sends it at the time `t`. -/
def follower (t : Nat) : Packet := .data 1 ⟨1⟩ ((⟨0, 7⟩ : Clock).timestamp t) [2]

/-- A day is near, and so are fifty days, when the peer's clock has gone round once. Thirty days are
not. -/
theorem expected_accepted_after_days :
    Accepts ⟨86400 * second, {}, ⟨0, 0⟩⟩ begun (follower (86400 * second)) ∧
      Accepts ⟨50 * 86400 * second, {}, ⟨0, 0⟩⟩ begun (follower (50 * 86400 * second)) ∧
      begun.placeOf ⟨30 * 86400 * second, {}, ⟨0, 0⟩⟩ (follower (30 * 86400 * second)) = .stale := by
  have started : begun.receiver.startedAt = some ((⟨0, 7⟩ : Clock).timestamp 0) := by
    decide +kernel
  have expected (t : Nat) : (follower t).header.id = begun.receiver.expected := by
    have one : begun.receiver.expected = ⟨1⟩ := by decide +kernel
    rw [one]
    rfl
  have aged (t : Nat) := expected_accepted_iff_near (c := begun) rfl ⟨0, 7⟩ (Nat.zero_le t) started
    ⟨t, {}, ⟨0, 0⟩⟩ (p := follower t) rfl rfl
  refine ⟨((aged _).1 (expected _)).mpr ?_, ((aged _).1 (expected _)).mpr ?_, (aged _).2.mpr ?_⟩
  · decide +kernel
  · decide +kernel
  · exact ⟨nofun, by decide +kernel⟩

/-- After half the range of the clock and one millisecond, the next packet of the stream is not
accepted. -/
theorem not_expected_accepted_after_half_range :
    ¬∀ (config : Config) (clock : Clock) (key : Key) (generation start : Nat)
        (ops : List (Nat × Op)) (peer : Clock) (s t : Nat) (p : Packet),
      config.validate = .ok () → (∀ step ∈ ops, step.2.Sound key) → (Op.packet p).Sound key →
      s ≤ t →
      (run config clock ops (create key generation config start)).value.receiver.startedAt =
        some (peer.timestamp s) →
      p.header.kind = .data → p.header.timestamp = peer.timestamp t →
      p.header.id =
        (run config clock ops (create key generation config start)).value.receiver.expected →
      Accepts ⟨t, config, clock⟩
        (run config clock ops (create key generation config start)).value p := by
  intro accepted
  have late : 0 ≤ (stampRange + 1) * millisecond := Nat.zero_le _
  have wellFormed (id : PacketId) (timestamp : UInt32) (payload : Bytes)
      (short : payload.length ≤ 0xffff) :
      (Op.packet (.data 1 id timestamp payload)).Sound ⟨⟨.v4 1, 1⟩, 1⟩ :=
    ⟨Packet.wellFormed_data (by decide) short, rfl⟩
  have taken := accepted {} ⟨0, 0⟩ ⟨⟨.v4 1, 1⟩, 1⟩ 1 0 [(0, .packet (.data 1 .streamStart 7 [1]))]
    ⟨0, 7⟩ 0 ((stampRange + 1) * millisecond) (follower ((stampRange + 1) * millisecond)) rfl ?_
    (wellFormed _ _ _ (by decide)) late (by decide +kernel) rfl rfl (by decide +kernel)
  · refine not_accepts_stale rfl ?_ taken
    decide +kernel
  · intro step mem
    rcases List.mem_singleton.mp mem with rfl
    exact wellFormed _ _ _ (by decide)

end Channel

end ReliableDatagram
