import ReliableDatagram.Proofs.Table.Capacity
import ReliableDatagram.Proofs.Table.Turnover

/-!
# What a table rejects

Rejected input leaves a table as it is: every channel, the counters and what is to be sent and
reported. Only datagrams that do not parse are counted. For most of it the table looks before it acts.
A write that finds the queues full does reach its channel, and the check for a connection that follows
has nothing to find, as every channel is settled between two steps.
-/

namespace ReliableDatagram

namespace Channel

variable {c : Channel} {w : ParkedWrite}

/-- A settled channel has been checked. -/
theorem Settled.checkConnected (settled : c.Settled) : c.checkConnected = pure c := by
  refine if_neg fun ready => ?_
  have phase := settled.phase
  rw [ready.1, if_pos ready.2.2] at phase
  cases phase

theorem Settled.write_of_full (settled : c.Settled) (ctx : Context) (full : ¬c.HasRoom ctx.config)
    (w : ParkedWrite) : c.write ctx w = ⟨c, [.reply w.ticket (.error (.queueFull c.key))]⟩ := by
  rw [write_of_alive settled.alive, sendOrPark_of_full full]
  show Logged.mk c.checkConnected.value (_ :: c.checkConnected.log) = _
  rw [settled.checkConnected]
  rfl

/-- A write for which there is room is not answered with an error. -/
theorem no_error_of_room (ctx : Context) (alive : c.phase ≠ .closed) (room : c.HasRoom ctx.config)
    {ticket : Nat} {error : TransportError} : .reply ticket (.error error) ∉ (c.write ctx w).log := by
  rw [write_of_alive alive, Logged.log_bind]
  intro logged
  rcases List.mem_append.mp logged with early | late
  · rcases sendOrPark_of_room room w with same | same <;> rw [same] at early
    · simp [log_sendWrite] at early
    · cases early
  · cases mem_checkConnected_log _ late

end Channel

namespace Table

open Channel

/-- What a table does with what it rejects. -/
structure Unmoved (t : Table) : Prop where
  malformed : ∀ now sender bytes error, Packet.parse bytes = .error error →
    t.perform now (.datagram sender bytes) =
      ⟨(.none, { t with malformedPackets := t.malformedPackets + 1 }), []⟩
  /-- Packets that open no channel go past a table that has none for them. -/
  stray : ∀ now sender bytes p, Packet.parse bytes = .ok p →
    p.header.kind ∈ [.ack, .reset, .ackReset, .ackPing] →
    t.find? ⟨sender, p.header.channel⟩ = none →
    t.perform now (.datagram sender bytes) = ⟨(.none, t), []⟩
  /-- There is an error in the answer to just those writes that are too long, come to no channel, or
  come to full queues. -/
  refused : ∀ now key generation w ticket error,
    .reply ticket (.error error) ∈ (t.perform now (.write key generation w)).log ↔
      ticket = w.ticket ∧ rejection? t.config key (t.live? key generation) w = some error
  write : ∀ now key generation w ticket error,
    .reply ticket (.error error) ∈ (t.perform now (.write key generation w)).log →
    t.perform now (.write key generation w) = ⟨(.none, t), [.reply ticket (.error error)]⟩
  close : ∀ now key generation,
    (t.perform now (.close key generation)).value.1 = .closed false →
    t.perform now (.close key generation) = ⟨(.closed false, t), []⟩
  connect : ∀ now key c, t.find? key = some c →
    t.perform now (.connect key) = ⟨(.generation c.generation, t), []⟩

variable {t : Table} {key : Key} {now generation : Nat} {w : ParkedWrite} {c : Channel}
  {error : TransportError}

section Put

/-- To put a channel where it is changes nothing. -/
theorem insertByKey_of_mem {channels : List Channel}
    (order : channels.Pairwise fun c d => c.key.before d.key = true) (mem : c ∈ channels) :
    insertByKey c channels = channels := by
  induction channels with
  | nil => cases mem
  | cons d ds ih =>
    obtain ⟨first, rest⟩ := List.pairwise_cons.mp order
    rcases List.mem_cons.mp mem with rfl | tail
    · simp [insertByKey]
    · have behind : d.key.before c.key = true := first c tail
      have other : c.key ≠ d.key := fun same => by simp [Key.before, same] at behind
      have late : c.key.before d.key = false := by
        simp only [Key.before, decide_eq_true_eq, decide_eq_false_iff_not] at behind ⊢
        omega
      rw [insertByKey, if_neg other, if_neg (by simp [late]), ih rest tail]

theorem Ordered.put_self (order : t.Ordered) (found : t.find? key = some c) : t.put c = t := by
  rw [Table.put, insertByKey_of_mem order (mem_of_find? found).1]

end Put

section Write

theorem write_of_rejection (settled : t.Settled)
    (rejected : rejection? t.config key (t.live? key generation) w = some error) (now : Nat) :
    t.write now key generation w = ⟨t, [.reply w.ticket (.error error)]⟩ := by
  unfold rejection? at rejected
  unfold write
  dsimp only
  split at rejected
  · next long =>
    rw [if_pos long]
    cases rejected
    rfl
  · next fits =>
    rw [if_neg fits]
    cases live : t.live? key generation with
    | none =>
      rw [live] at rejected
      cases rejected
      rfl
    | some c =>
      rw [live] at rejected
      have found := find?_of_live? live
      have full : ¬c.HasRoom t.config := fun room => by simp [room] at rejected
      have rejected : some (TransportError.queueFull key) = some error := by
        simpa [full] using rejected
      obtain rfl := Option.some.inj rejected
      have turnedAway := (settled.channels key c found).write_of_full (t.context now) full w
      rw [(mem_of_find? found).2] at turnedAway
      show t.put <$> c.write (t.context now) w = _
      rw [turnedAway]
      show Logged.mk (t.put c) _ = _
      rw [settled.order.put_self found]

theorem rejection_of_error (settled : t.Settled) {ticket : Nat}
    (answered : .reply ticket (.error error) ∈ (t.write now key generation w).log) :
    rejection? t.config key (t.live? key generation) w ≠ none := by
  intro accepted
  unfold rejection? at accepted
  unfold write at answered
  dsimp only at answered
  split at accepted
  · cases accepted
  · next fits =>
    rw [if_neg fits] at answered
    cases live : t.live? key generation with
    | none =>
      rw [live] at accepted
      cases accepted
    | some c =>
      rw [live] at accepted answered
      have room : c.HasRoom t.config := by
        by_contra full
        simp [full] at accepted
      have alive := (settled.channels key c (find?_of_live? live)).alive
      exact no_error_of_room (t.context now) alive room answered

theorem refused_iff (settled : t.Settled) {ticket : Nat} :
    .reply ticket (.error error) ∈ (t.write now key generation w).log ↔
      ticket = w.ticket ∧ rejection? t.config key (t.live? key generation) w = some error := by
  cases rejected : rejection? t.config key (t.live? key generation) w with
  | none =>
    exact iff_of_false (fun answered => rejection_of_error settled answered rejected) nofun
  | some reason =>
    rw [write_of_rejection settled rejected]
    simp [eq_comm]

end Write

theorem Settled.unmoved (settled : t.Settled) : t.Unmoved := by
  constructor
  · intro now sender bytes error broken
    simp only [perform, onDatagram, broken]
    rfl
  · intro now sender bytes p parsed kind missing
    have closed : p.header.kind.opensChannel = false := by
      simp only [List.mem_cons, List.not_mem_nil, or_false] at kind
      rcases kind with kind | kind | kind | kind <;> rw [kind] <;> rfl
    simp only [perform, onDatagram, parsed, missing, closed]
    rfl
  · intro now key generation w ticket error
    exact refused_iff settled
  · intro now key generation w ticket error answered
    obtain ⟨rfl, rejected⟩ := (refused_iff settled).mp answered
    show (Answer.none, ·) <$> t.write now key generation w = _
    rw [write_of_rejection settled rejected]
    rfl
  · intro now key generation answered
    simp only [perform, close] at answered ⊢
    cases live : t.live? key generation with
    | none => rfl
    | some c =>
      rw [live] at answered
      cases answered
  · intro now key c found
    simp only [perform, connect, found]
    rfl

/-- In every state that a table gets into by any run, and however many of its datagrams could not be
sent, what it rejects leaves it as it is: a datagram that does not parse is counted, and nothing else
happens; nothing at all happens on packets to no channel that open none, on writes that are answered
with an error, on closing where nobody is, and on connecting where somebody is. -/
theorem unmoved_by_rejections (config : Config) (clock : Clock) (ops : List (Nat × Op))
    (failed : Nat) : ((run ops { config, clock }).value.recordSendErrors failed).Unmoved := by
  have settled := settled_run ops (settled_empty config clock)
  exact Settled.unmoved ⟨settled.order, settled.channels, settled.generations⟩

/-- In a table with full queues, of which two datagrams could not be sent, a malformed datagram is
counted, and one more write is turned away. -/
theorem unmoved_by_rejections_of_crush :
    let key : Key := ⟨⟨.v4 1, 1⟩, 1⟩
    let t := (run crush { config := cramped, clock := ⟨0, 0⟩ }).value.recordSendErrors 2
    t.perform 0 (.datagram key.addr [0x11, 7]) =
        ⟨(.none, { t with malformedPackets := t.malformedPackets + 1 }), []⟩ ∧
      t.perform 0 (.write key 1 ⟨3, [1]⟩) =
        ⟨(.none, t), [.reply 3 (.error (.queueFull key))]⟩ := by
  intro key t
  have unmoved := unmoved_by_rejections cramped ⟨0, 0⟩ crush 2
  have full : rejection? t.config key (t.live? key 1) ⟨3, [1]⟩ = some (.queueFull key) := by
    decide +kernel
  exact ⟨unmoved.malformed 0 key.addr [0x11, 7] (.short 2) rfl,
    unmoved.write 0 key 1 ⟨3, [1]⟩ 3 (.queueFull key)
      ((unmoved.refused 0 key 1 ⟨3, [1]⟩ 3 (.queueFull key)).mpr ⟨rfl, full⟩)⟩

end Table

end ReliableDatagram
