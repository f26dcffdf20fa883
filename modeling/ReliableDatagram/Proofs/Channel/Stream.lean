import ReliableDatagram.Proofs.Channel.Directions
import ReliableDatagram.Proofs.PacketId

/-!
# Streams

A stream is the list of data packets that a sender numbers from the stream start on. A receiver
follows a stream if it has delivered the first packets of it, expects the next one, and keeps early
packets of it only.
-/

namespace ReliableDatagram

open PacketId

/-- The packets of a stream on a channel number, in order. -/
def Stream (n : UInt8) (st : List Packet) : Prop :=
  ∀ k p, st[k]? = some p →
    p.WellFormed ∧ p.header.channel = n ∧ p.header.kind = .data ∧ p.header.id = nth k

def contentsOf (st : List Packet) : List Bytes := st.map (·.payload)

@[simp] theorem contentsOf_append (st st' : List Packet) :
    contentsOf (st ++ st') = contentsOf st ++ contentsOf st' := List.map_append

namespace Stream

variable {n : UInt8} {st : List Packet} {p : Packet} {k : Nat}

theorem nil (n : UInt8) : Stream n [] := fun _ _ found => by cases found

theorem snoc (stream : Stream n st) (wellFormed : p.WellFormed) (channel : p.header.channel = n)
    (kind : p.header.kind = .data) (id : p.header.id = nth st.length) : Stream n (st ++ [p]) := by
  intro j q found
  rcases Nat.lt_or_ge j st.length with old | new
  · exact stream j q (by rwa [List.getElem?_append_left old] at found)
  · rw [List.getElem?_append_right new] at found
    have last : j - st.length = 0 := by
      obtain ⟨bound, _⟩ := List.getElem?_eq_some_iff.mp found
      simpa using bound
    rw [last] at found
    obtain rfl : p = q := Option.some.inj found
    exact ⟨wellFormed, channel, kind, by rw [id, show j = st.length by omega]⟩

theorem id (stream : Stream n st) (found : st[k]? = some p) : p.header.id = nth k :=
  (stream k p found).2.2.2

theorem kind (stream : Stream n st) (mem : p ∈ st) : p.header.kind = .data := by
  obtain ⟨k, found⟩ := List.getElem?_of_mem mem
  exact (stream k p found).2.2.1

/-- A stream start is the first packet of its stream. -/
theorem first (stream : Stream n st) (mem : p ∈ st) (start : p.header.id = .streamStart) :
    st[0]? = some p := by
  obtain ⟨k, found⟩ := List.getElem?_of_mem mem
  have id := stream.id found
  rw [start] at id
  obtain rfl := nth_eq_streamStart.mp id.symm
  exact found

end Stream

namespace Channel

variable {st : List Packet} {d k : Nat} {r : Receiver}

structure Follows (st : List Packet) (d : Nat) (r : Receiver) : Prop where
  within : d ≤ st.length
  expected : r.expected = nth d
  startedAt : 0 < d → ∃ p, st[0]? = some p ∧ r.startedAt = some p.header.timestamp
  early : ∀ id payload, r.early.get? id = some payload →
    ∃ j p, d < j ∧ st[j]? = some p ∧ id = nth j ∧ payload = p.payload
  idle : r.pendingReset = none

/-- The receiver has the `k`-th packet of the stream, delivered or kept. -/
def Has (st : List Packet) (d : Nat) (r : Receiver) (k : Nat) : Prop :=
  k < d ∨ ∃ p, st[k]? = some p ∧ r.early.get? (nth k) = some p.payload

theorem follows_fresh (st : List Packet) : Follows st 0 {} :=
  ⟨Nat.zero_le _, rfl, fun pos => absurd pos (Nat.lt_irrefl 0), nofun, rfl⟩

theorem Follows.append (follows : Follows st d r) (more : List Packet) :
    Follows (st ++ more) d r := by
  have grow {j : Nat} {p : Packet} (found : st[j]? = some p) : (st ++ more)[j]? = some p := by
    rw [List.getElem?_append_left (List.getElem?_eq_some_iff.mp found).1]
    exact found
  refine ⟨Nat.le_trans follows.within (by simp), follows.expected, fun pos => ?_, ?_,
    follows.idle⟩
  · obtain ⟨p, found, started⟩ := follows.startedAt pos
    exact ⟨p, grow found, started⟩
  · intro id payload kept
    obtain ⟨j, p, ahead, found, place⟩ := follows.early id payload kept
    exact ⟨j, p, ahead, grow found, place⟩

theorem Has.append (has : Has st d r k) (more : List Packet) : Has (st ++ more) d r k := by
  rcases has with delivered | ⟨p, found, kept⟩
  · exact .inl delivered
  · refine .inr ⟨p, ?_, kept⟩
    rw [List.getElem?_append_left (List.getElem?_eq_some_iff.mp found).1]
    exact found

section Drain

/-- All packets in the queue are packets of the stream from the `d`-th on. -/
def Queues (st : List Packet) (d : Nat) (q : ReceiveQueue) : Prop :=
  ∀ id payload, q.get? id = some payload →
    ∃ j p, d ≤ j ∧ st[j]? = some p ∧ id = nth j ∧ payload = p.payload

theorem lt_horizon (short : st.length ≤ horizon) {p : Packet} (found : st[k]? = some p) :
    k < horizon :=
  Nat.lt_of_lt_of_le (List.getElem?_eq_some_iff.mp found).1 short

theorem Queues.erase {q : ReceiveQueue} (queues : Queues st d q) :
    Queues st (d + 1) (q.erase (nth d)) := by
  intro id payload kept
  rw [ReceiveQueue.get?_erase] at kept
  split at kept
  · cases kept
  · next other =>
    obtain ⟨j, p, ahead, found, rfl, same⟩ := queues id payload kept
    have : j ≠ d := fun same => other (by rw [same])
    exact ⟨j, p, by omega, found, rfl, same⟩

/-- The run that the queue gives up is the next part of the stream. -/
theorem drain_stream (short : st.length ≤ horizon) (q : ReceiveQueue) (d : Nat)
    (within : d ≤ st.length) (queues : Queues st d q) :
    ∃ d', d ≤ d' ∧ d' ≤ st.length ∧
      contentsOf (st.take d') = contentsOf (st.take d) ++ (q.drain (nth d)).1 ∧
      (q.drain (nth d)).2.1 = nth d' ∧ Queues st (d' + 1) (q.drain (nth d)).2.2 ∧
      ∀ j payload, q.get? (nth j) = some payload →
        j < horizon → j < d' ∨ (q.drain (nth d)).2.2.get? (nth j) = some payload := by
  induction size : q.length using Nat.strongRecOn generalizing q d with
  | ind size ih =>
    subst size
    cases here : q.get? (nth d) with
    | none =>
      rw [ReceiveQueue.drain_missing here]
      refine ⟨d, Nat.le_refl d, within, (List.append_nil _).symm, rfl, ?_, fun j payload kept _ =>
        .inr kept⟩
      intro id payload kept
      obtain ⟨j, p, ahead, found, rfl, same⟩ := queues id payload kept
      have : j ≠ d := by
        rintro rfl
        rw [here] at kept
        cases kept
      exact ⟨j, p, by omega, found, rfl, same⟩
    | some payload =>
      rw [ReceiveQueue.drain_found here]
      obtain ⟨j, p, ahead, found, same, rfl⟩ := queues _ _ here
      have bound := (List.getElem?_eq_some_iff.mp found).1
      obtain rfl : d = j := (nth_inj (by omega) (by omega)).mp same
      have smaller := ReceiveQueue.length_erase_lt here
      obtain ⟨d', later, within', delivered, expected, rest, stays⟩ :=
        ih _ smaller (q.erase (nth d)) (d + 1) bound queues.erase rfl
      refine ⟨d', by omega, within', ?_, expected, rest, ?_⟩
      · have next : contentsOf (st.take (d + 1)) = contentsOf (st.take d) ++ [p.payload] := by
          rw [List.take_add_one, found]
          exact contentsOf_append _ _
        show _ = _ ++ p.payload :: ((q.erase (nth d)).drain (nth (d + 1))).1
        rw [delivered, next, List.append_assoc]
        rfl
      · intro i payload held near
        by_cases own : i = d
        · exact .inl (by omega)
        · refine stays i payload ?_ near
          rw [ReceiveQueue.get?_erase, if_neg]
          · exact held
          · exact fun same => own ((nth_inj (by omega) (by omega)).mp same)

end Drain

/-- The expected packet is delivered together with those that waited for it. -/
theorem Follows.accept (short : st.length ≤ horizon) (follows : Follows st d r) {p : Packet}
    (found : st[d]? = some p) (started : d = 0 → r.startedAt = some p.header.timestamp) :
    ∃ d', d < d' ∧ Follows st d' (r.accept (nth d) p.payload).2 ∧
      contentsOf (st.take d') =
        contentsOf (st.take d) ++ (r.accept (nth d) p.payload).1 ∧
      ∀ k, Has st d r k → Has st d' (r.accept (nth d) p.payload).2 k := by
  have bound := (List.getElem?_eq_some_iff.mp found).1
  obtain ⟨d', later, within, delivered, expected, rest, stays⟩ :=
    drain_stream short r.early (d + 1) bound fun id payload kept => by
      obtain ⟨j, q, ahead, place⟩ := follows.early id payload kept
      exact ⟨j, q, ahead, place⟩
  have next : contentsOf (st.take (d + 1)) = contentsOf (st.take d) ++ [p.payload] := by
    rw [List.take_add_one, found]
    exact contentsOf_append _ _
  refine ⟨d', later, ⟨within, expected, fun _ => ?_, ?_, follows.idle⟩, ?_, ?_⟩
  · rcases Nat.eq_zero_or_pos d with rfl | pos
    · exact ⟨p, found, started rfl⟩
    · exact follows.startedAt pos
  · intro id payload kept
    obtain ⟨j, q, ahead, place⟩ := rest id payload kept
    exact ⟨j, q, ahead, place⟩
  · rw [delivered, next, List.append_assoc]
    rfl
  · rintro k (old | ⟨q, known, kept⟩)
    · exact .inl (by omega)
    · rcases stays k q.payload kept (lt_horizon short known) with new | still
      · exact .inl new
      · exact .inr ⟨q, known, still⟩

theorem Follows.keep (short : st.length ≤ horizon) (follows : Follows st d r) {p : Packet}
    (found : st[k]? = some p) (ahead : d < k) :
    Follows st d (r.keep (nth k) p.payload) ∧
      (∀ j, Has st d r j → Has st d (r.keep (nth k) p.payload) j) ∧
      Has st d (r.keep (nth k) p.payload) k := by
  have get (id : PacketId) : (r.keep (nth k) p.payload).early.get? id =
      if id = nth k ∧ r.early.get? (nth k) = none then some p.payload else r.early.get? id :=
    ReceiveQueue.get?_insert _ _ _ _
  have stays (j : Nat) (has : Has st d r j) : Has st d (r.keep (nth k) p.payload) j := by
    rcases has with old | ⟨q, known, kept⟩
    · exact .inl old
    · refine .inr ⟨q, known, ?_⟩
      rw [get, if_neg]
      · exact kept
      · rintro ⟨same, free⟩
        rw [same, free] at kept
        cases kept
  refine ⟨⟨follows.within, follows.expected, follows.startedAt, ?_, follows.idle⟩, stays, ?_⟩
  · intro id payload kept
    rw [get] at kept
    split at kept
    · next new =>
      obtain rfl : p.payload = payload := Option.some.inj kept
      exact ⟨k, p, ahead, found, new.1, rfl⟩
    · exact follows.early id payload kept
  · cases held : r.early.get? (nth k) with
    | none =>
      refine .inr ⟨p, found, ?_⟩
      rw [get, if_pos ⟨rfl, held⟩]
    | some payload =>
      obtain ⟨j, q, _, known, same, rfl⟩ := follows.early _ _ held
      obtain rfl : k = j :=
        (nth_inj (Nat.le_of_lt (lt_horizon short found)) (Nat.le_of_lt (lt_horizon short known))).mp
          same
      exact stays k (.inr ⟨q, known, held⟩)

/-- Where a packet of the stream belongs that is not stamped before the stream start. -/
theorem Follows.place (short : st.length ≤ horizon) (follows : Follows st d r) {p : Packet}
    (found : st[k]? = some p) (id : p.header.id = nth k)
    (inTime : ∀ q, st[0]? = some q → stampedBefore p.header.timestamp q.header.timestamp = false)
    (window : Nat) :
    r.place window p.header.id p.header.timestamp =
      if k = 0 then if d = 0 then .start else .repeatedStart
      else if d = 0 then .unplaced
      else if k = d then .next
      else if k < d then .delivered
      else if k - d > window then .beyondWindow
      else if r.early.contains (nth k) then .buffered
      else .early := by
  have kShort := Nat.le_of_lt (lt_horizon short found)
  have dShort := Nat.le_trans follows.within short
  rw [id]
  rcases Nat.eq_zero_or_pos k with rfl | kPos
  · rw [if_pos rfl, nth_zero, Receiver.place_streamStart, follows.expected]
    rcases Nat.eq_zero_or_pos d with rfl | dPos
    · rw [if_pos nth_zero, if_pos rfl]
    · obtain ⟨q, first, started⟩ := follows.startedAt dPos
      obtain rfl : p = q := Option.some.inj (found.symm.trans first)
      rw [if_neg (by rw [nth_eq_streamStart]; omega), if_pos started, if_neg (by omega)]
  · rw [if_neg (by omega), Receiver.place_of_ne (by rw [Ne, nth_eq_streamStart]; omega),
      follows.expected]
    rcases Nat.eq_zero_or_pos d with rfl | dPos
    · rw [if_pos nth_zero, if_pos rfl]
    · obtain ⟨q, first, started⟩ := follows.startedAt dPos
      have fresh : r.isStale p.header.timestamp = false := by
        simp only [Receiver.isStale, started]
        exact inTime q first
      rw [if_neg (by rw [nth_eq_streamStart]; omega), fresh, if_neg (by omega : ¬d = 0),
        distanceTo_nth dPos kPos dShort kShort]
      simp only [Bool.false_eq_true, if_false]
      by_cases here : k = d
      · rw [if_pos here, if_pos (by omega)]
      · rw [if_neg here, if_neg (by omega)]
        by_cases behind : k < d
        · rw [if_pos behind, if_pos (by omega)]
        · rw [if_neg behind, if_neg (by omega)]
          by_cases beyond : k - d > window
          · rw [if_pos beyond, if_pos (by omega)]
          · rw [if_neg beyond, if_neg (by omega)]

/-- What a placement tells about the `k`-th packet of a stream of which `d` are delivered. -/
def Placed (k d : Nat) (r : Receiver) : Placement → Prop
  | .start => k = 0 ∧ d = 0
  | .repeatedStart | .delivered => k < d
  | .unplaced => k ≠ 0 ∧ d = 0
  | .next => k = d ∧ d ≠ 0
  | .early | .beyondWindow => d < k
  | .buffered => d < k ∧ r.early.contains (nth k) = true
  | .restart | .stale => False

theorem Follows.placed (short : st.length ≤ horizon) (follows : Follows st d r) {p : Packet}
    (found : st[k]? = some p) (id : p.header.id = nth k)
    (inTime : ∀ q, st[0]? = some q → stampedBefore p.header.timestamp q.header.timestamp = false)
    (window : Nat) : Placed k d r (r.place window p.header.id p.header.timestamp) := by
  rw [follows.place short found id inTime]
  split
  · split
    · next zero none => exact ⟨zero, none⟩
    · exact (by omega : k < d)
  · split
    · next pos none => exact ⟨pos, none⟩
    · split
      · next some here => exact ⟨here, some⟩
      · split
        · next behind => exact behind
        · split
          · exact (by omega : d < k)
          · split
            · next held => exact ⟨by omega, held⟩
            · exact (by omega : d < k)

end Channel

end ReliableDatagram
