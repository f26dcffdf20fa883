import ReliableDatagram.Channel.Receiver

/-!
# Where data packets belong

Each placement that matters to a stream's start, or to what is delivered and kept, says what the
packet and the receiver look like. Whoever accepts a packet has a stream from then on.
-/

namespace ReliableDatagram.Channel

namespace Receiver

variable {r : Receiver} {window : Nat} {id : PacketId} {timestamp : UInt32}

theorem place_streamStart (r : Receiver) (window : Nat) (timestamp : UInt32) :
    r.place window .streamStart timestamp =
      if r.expected = .streamStart then .start
      else if r.startedAt = some timestamp then .repeatedStart
      else .restart := by
  rw [place, if_pos rfl]

theorem place_of_ne {id : PacketId} (other : id ≠ .streamStart) :
    r.place window id timestamp =
      if r.expected = .streamStart then .unplaced
      else if r.isStale timestamp then .stale
      else if r.expected.distanceTo id = 0 then .next
      else if r.expected.distanceTo id < 0 then .delivered
      else if r.expected.distanceTo id > window then .beyondWindow
      else if r.early.contains id then .buffered
      else .early := by
  rw [place, if_neg other]

theorem place_eq_start (place : r.place window id timestamp = .start) :
    id = .streamStart ∧ r.expected = .streamStart := by
  by_cases start : id = .streamStart
  · subst start
    rw [place_streamStart] at place
    split at place
    · next waiting => exact ⟨rfl, waiting⟩
    · split at place <;> cases place
  · rw [place_of_ne start] at place
    repeat' split at place
    all_goals cases place

theorem place_eq_restart (place : r.place window id timestamp = .restart) :
    id = .streamStart ∧ r.expected ≠ .streamStart ∧ r.startedAt ≠ some timestamp := by
  by_cases start : id = .streamStart
  · subst start
    rw [place_streamStart] at place
    split at place
    · cases place
    · next started =>
      split at place
      · cases place
      · next other => exact ⟨rfl, started, other⟩
  · rw [place_of_ne start] at place
    repeat' split at place
    all_goals cases place

theorem place_eq_unplaced (place : r.place window id timestamp = .unplaced) :
    id ≠ .streamStart ∧ r.expected = .streamStart := by
  by_cases start : id = .streamStart
  · subst start
    rw [place_streamStart] at place
    repeat' split at place
    all_goals cases place
  · rw [place_of_ne start] at place
    split at place
    · next waiting => exact ⟨start, waiting⟩
    · repeat' split at place
      all_goals cases place

theorem place_eq_next (place : r.place window id timestamp = .next) :
    id ≠ .streamStart ∧ r.expected ≠ .streamStart ∧ r.expected.distanceTo id = 0 := by
  by_cases start : id = .streamStart
  · subst start
    rw [place_streamStart] at place
    repeat' split at place
    all_goals cases place
  · rw [place_of_ne start] at place
    split at place
    · cases place
    · next started =>
      split at place
      · cases place
      · split at place
        · next here => exact ⟨start, started, here⟩
        · repeat' split at place
          all_goals cases place

theorem place_eq_early (place : r.place window id timestamp = .early) :
    id ≠ .streamStart ∧ r.expected ≠ .streamStart ∧ 0 < r.expected.distanceTo id ∧
      r.expected.distanceTo id ≤ window := by
  by_cases start : id = .streamStart
  · subst start
    rw [place_streamStart] at place
    repeat' split at place
    all_goals cases place
  · rw [place_of_ne start] at place
    split at place
    · cases place
    · next started =>
      repeat' split at place
      all_goals cases place
      exact ⟨start, started, by omega, by omega⟩

theorem not_contains_of_place_eq_early (place : r.place window id timestamp = .early) :
    r.early.contains id = false := by
  rw [place_of_ne (place_eq_early place).1] at place
  repeat' split at place
  all_goals cases place
  next missing => exact Bool.eq_false_iff.mpr missing

end Receiver

section Accept

open PacketId

theorem drain_ne_streamStart (q : ReceiveQueue) {id : PacketId} (later : id ≠ .streamStart) :
    (q.drain id).2.1 ≠ .streamStart := by
  induction q, id using ReceiveQueue.drain.induct with
  | case1 q id missing =>
    rw [ReceiveQueue.drain_missing missing]
    exact later
  | case2 q id payload kept payloads after rest drained ih =>
    rw [ReceiveQueue.drain_found kept]
    exact ih (next_ne_streamStart id)

theorem expected_accept_ne (r : Receiver) (id : PacketId) (payload : Bytes) :
    (r.accept id payload).2.expected ≠ .streamStart :=
  drain_ne_streamStart r.early (next_ne_streamStart id)

end Accept

end ReliableDatagram.Channel
