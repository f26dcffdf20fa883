import ReliableDatagram.Proofs.Channel.Buffers
import ReliableDatagram.Proofs.Link.CleanRound
import ReliableDatagram.Proofs.Link.Restarts

/-!
# The lead of a sender

A sender has no window of its own, only a limit on what is unacknowledged. Still it cannot run away
from its receiver: of the packets that were sent and not delivered, the expected one and all beyond
the receive window are unacknowledged, because a receiver keeps packets of its window only.
-/

namespace ReliableDatagram

open Link Channel PacketId

variable {n : UInt8} {clock : Clock} {start now window : Nat} {v : Conversation} {e : End}
variable {st : List Packet} {d k : Nat}

namespace Channel

/-- What a receiver has of a stream and did not deliver lies in its window. -/
theorem Has.near {r : Receiver} (has : Has st d r k) (follows : Follows st d r)
    (short : st.length ≤ horizon) (windowed : Windowed window r) :
    k < d ∨ d < k ∧ k ≤ d + window := by
  rcases has with delivered | ⟨p, found, kept⟩
  · exact .inl delivered
  · right
    have bound := (List.getElem?_eq_some_iff.mp found).1
    have within := follows.within
    obtain ⟨later, ahead, near⟩ := windowed.early _ _ kept
    rcases Nat.eq_zero_or_pos d with rfl | pos
    · have none : r.early = {} := windowed.waits follows.expected
      simp [none, ReceiveQueue.get?] at kept
    · have kPos : 0 < k := Nat.pos_of_ne_zero fun zero => later (by rw [zero, nth_zero])
      rw [follows.expected, distanceTo_nth pos kPos (by omega) (by omega)] at ahead near
      omega

end Channel

/-- The places of a stream that a receiver cannot have. -/
def outOfReach (window d length : Nat) : List Nat :=
  d :: List.range' (d + window + 1) (length - (d + window + 1))

theorem nodup_outOfReach (window d length : Nat) : (outOfReach window d length).Nodup := by
  refine List.nodup_cons.mpr ⟨fun mem => ?_, List.nodup_range'⟩
  have := (List.mem_range'_1.mp mem).1
  omega

/-- The sender's lead is at most the receive window and what is unacknowledged. -/
theorem Flow.lead (flow : Flow n clock start now v e st d) (short : st.length ≤ horizon)
    (windowed : Windowed window (v.receiver e.other)) :
    st.length ≤ d + (window + (v.sender e).unacked.contents.length) := by
  rcases Nat.lt_or_ge (d + window) st.length with far | near
  · have places : ∀ k ∈ outOfReach window d st.length, k = d ∨ d + window < k ∧ k < st.length := by
      intro k mem
      rcases List.mem_cons.mp mem with here | beyond
      · exact .inl here
      · obtain ⟨low, high⟩ := List.mem_range'_1.mp beyond
        exact .inr ⟨by omega, by omega⟩
    have unacked : (outOfReach window d st.length).map nth ⊆ (v.sender e).unackedIds := by
      intro id listed
      obtain ⟨k, mem, rfl⟩ := List.mem_map.mp listed
      have place := places k mem
      have found : st[k]? = some st[k] := List.getElem?_eq_getElem (by omega)
      rcases flow.held k _ found with held | has
      · exact List.mem_map.mpr ⟨_, held, rfl⟩
      · have := has.near flow.follows short windowed
        omega
    have distinct : ((outOfReach window d st.length).map nth).Nodup := by
      refine List.pairwise_map.mpr ((nodup_outOfReach window d st.length).imp_of_mem ?_)
      intro j k jMem kMem other same
      have := places j jMem
      have := places k kMem
      exact other ((nth_inj (by omega) (by omega)).mp same)
    have count := distinct.length_le_of_subset unacked
    simp only [outOfReach, Sender.unackedIds, List.length_map, List.length_cons,
      List.length_range'] at count
    omega
  · omega

namespace Link

variable {l : Link} {ops : List Op}

theorem continues_of_regular (regular : ∀ op ∈ ops, op.Regular) (e : End) :
    Continues e ops l := by
  induction ops generalizing l with
  | nil => trivial
  | cons op ops ih =>
    refine ⟨?_, ih fun op mem => regular op (List.mem_cons_of_mem _ mem)⟩
    have runs := (regular op List.mem_cons_self).2
    cases op with
    | restart => cases runs
    | _ => trivial

/-- As long as nothing is reset, all that an end sent is the one stream that it goes on with. -/
theorem length_sent (fresh : l.Fresh) (regular : ∀ op ∈ ops, op.Regular)
    (few : (accepted e n ops l).length ≤ horizon)
    (sends : Sends st (((run ops l).value.conversation n).sender e))
    (accepts : accepted e n ops l =
      contentsOf st ++ parkedBytes (((run ops l).value.conversation n).sender e)) :
    (sent e n (run ops l).log).length = st.length := by
  obtain ⟨past, open_, ⟨writes, _⟩, flatten⟩ := (writing_fresh fresh n e).run fresh.sound
    (fun op mem => (regular op mem).1) (continues_of_regular regular e) (Nat.le_refl _)
  have all : (sent e n (run ops l).log).length = (past ++ [open_]).flatten.length := by
    rw [flatten]
    rfl
  have carried := writes.carries.length_le
  rw [List.nil_append, accepts] at carried
  rw [accepts] at few
  simp only [contentsOf, List.length_append, List.length_map] at carried few
  have part : open_.length ≤ (past ++ [open_]).flatten.length := by simp
  have same : nth st.length = nth open_.length := sends.nextId.symm.trans writes.sends.nextId
  have := (nth_inj (by omega) (by omega)).mp same
  omega

theorem abides_windowed (l : Link) :
    l.Abides fun e c => Windowed (l.config e).receiveWindow c.receiver := by
  constructor
  · exact fun e _ _ _ => windowed_fresh _
  · intro e ctx asked c c' log ws config _ _ _ moves windowed
    rw [← config] at windowed ⊢
    exact moves.windowed windowed

theorem abides_roomy (sizes : ∀ e, (l.config e).defaultQueueSize ≤ (l.config e).maxQueueSize) :
    l.Abides fun e c => Roomy (l.config e) c.sender := by
  constructor
  · exact fun e key generation now => roomy_create key generation now (sizes e)
  · intro e ctx asked c c' log ws config _ _ _ moves roomy
    rw [← config] at roomy ⊢
    exact moves.roomy roomy

end Link

theorem Config.defaultQueueSize_le {config : Config} (valid : config.validate = .ok ()) :
    config.defaultQueueSize ≤ config.maxQueueSize := by
  refine Nat.le_of_not_lt fun less => ?_
  simp only [validate, less, if_true] at valid
  repeat' split at valid
  all_goals cases valid

namespace Link

/-- Until a channel is destroyed, an end has never sent more data packets than its peer has
delivered, its receive window and the own send queue's most together. -/
theorem lead_bounded {l : Link} {ops : List Op} (n : UInt8) (fresh : l.Fresh)
    (valid : ∀ e, (l.config e).validate = .ok ()) (regular : ∀ op ∈ ops, op.Regular)
    (keeps : ∀ e, Keeps e n ops l)
    (near : (run ops l).value.now < l.now + stampRange * millisecond)
    (few : ∀ e, (accepted e n ops l).length < horizon) (e : End) :
    (delivered e.other n (run ops l).log).length ≤ (sent e n (run ops l).log).length ∧
      (sent e n (run ops l).log).length ≤ (delivered e.other n (run ops l).log).length +
        ((l.config e.other).receiveWindow + (l.config e).maxQueueSize) := by
  have known : ∀ op ∈ ops, op.Sound := fun op mem => (regular op mem).1
  obtain ⟨_, flows⟩ := flows_of_fresh fresh regular keeps near few
  obtain ⟨st, d, flow, short, accepts, delivers⟩ := flows.short (fun e => Nat.le_of_lt (few e)) e
  have sends : (sent e n (run ops l).log).length = st.length :=
    length_sent fresh regular (Nat.le_of_lt (few e)) flow.sends accepts
  have delivers : delivered e.other n (run ops l).log = contentsOf (st.take d) := delivers
  have count : (delivered e.other n (run ops l).log).length = d := by
    rw [delivers, contentsOf, List.length_map, List.length_take_of_le flow.follows.within]
  have windowed : Windowed (l.config e.other).receiveWindow
      (((run ops l).value.conversation n).receiver e.other) := by
    cases found : ((run ops l).value.conversation n).channel? e.other with
    | none =>
      simp only [Conversation.receiver, found]
      exact windowed_fresh _
    | some c =>
      rw [Conversation.receiver_of_some found]
      exact (abides_windowed l).channels_of_fresh fresh known n e.other c found
  have fits : (((run ops l).value.conversation n).sender e).unacked.contents.length ≤
      (l.config e).maxQueueSize := by
    cases found : ((run ops l).value.conversation n).channel? e with
    | none =>
      simp only [Conversation.sender, found]
      exact Nat.zero_le _
    | some c =>
      rw [Conversation.sender_of_some found]
      exact ((abides_roomy fun e => Config.defaultQueueSize_le (valid e)).channels_of_fresh fresh
        known n e c found).fits
  have lead := flow.lead short windowed
  have within := flow.follows.within
  omega

/-- Both ends let two packets be unacknowledged and look one packet ahead. -/
def narrow : Link where
  a := { pair.a with table.config := { defaultQueueSize := 2, maxQueueSize := 2, receiveWindow := 1 } }
  b := { pair.b with table.config := { defaultQueueSize := 2, maxQueueSize := 2, receiveWindow := 1 } }

theorem fresh_narrow : narrow.Fresh := fun e => by cases e <;> exact ⟨rfl, rfl⟩

/-- The end `a` writes four times. Its second packet is lost and its third one kept, so that the
fourth one takes its place in the send queue. -/
def gap : List Op :=
  [.connect .a 1, .write .a 1 1 ⟨0, [1]⟩, .deliver .a 1, .deliver .b 0, .write .a 1 1 ⟨1, [2]⟩,
    .write .a 1 1 ⟨2, [3]⟩, .deliver .a 2, .lose .a 1, .deliver .b 0, .write .a 1 1 ⟨3, [4]⟩]

/-- The lead can be as large as that. -/
theorem lead_bounded_of_gap :
    ((delivered .b 1 (run gap narrow).log).length ≤ (sent .a 1 (run gap narrow).log).length ∧
      (sent .a 1 (run gap narrow).log).length ≤
        (delivered .b 1 (run gap narrow).log).length + (1 + 2)) ∧
      (sent .a 1 (run gap narrow).log).length = 4 ∧
      delivered .b 1 (run gap narrow).log = [[1]] :=
  ⟨lead_bounded 1 fresh_narrow (fun e => by cases e <;> rfl) (by decide)
    (fun e => by cases e <;> decide +kernel) (by decide +kernel)
    (fun e => by cases e <;> decide +kernel) .a,
    by decide +kernel, by decide +kernel⟩

end Link

end ReliableDatagram
