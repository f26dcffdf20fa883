import ReliableDatagram.Bytes
import ReliableDatagram.PacketId

/-!
# Early packets

Payloads that arrived ahead of the next expected id wait here until the gap before them closes.
-/

namespace ReliableDatagram

/-- The payloads in order of arrival, at most one for each id. -/
structure ReceiveQueue where
  payloads : List (PacketId × Bytes) := []
deriving DecidableEq

namespace ReceiveQueue

def length (q : ReceiveQueue) : Nat := q.payloads.length

def isEmpty (q : ReceiveQueue) : Bool := q.payloads.isEmpty

def get? (q : ReceiveQueue) (id : PacketId) : Option Bytes := q.payloads.lookup id

def contains (q : ReceiveQueue) (id : PacketId) : Bool := (q.get? id).isSome

/-- Leaves the queue as it is if the id is taken. -/
def insert (q : ReceiveQueue) (id : PacketId) (payload : Bytes) : ReceiveQueue :=
  if q.contains id then q else ⟨q.payloads ++ [(id, payload)]⟩

def erase (q : ReceiveQueue) (id : PacketId) : ReceiveQueue :=
  ⟨q.payloads.filter (·.1 != id)⟩

theorem get?_insert (q : ReceiveQueue) (id j : PacketId) (payload : Bytes) :
    (q.insert id payload).get? j =
      if j = id ∧ q.get? id = none then some payload else q.get? j := by
  unfold insert contains
  cases held : q.get? id with
  | some old => simp
  | none =>
    by_cases same : j = id
    · subst same
      rw [get?] at held
      simp [get?, List.lookup_append, held]
    · have other : (j == id) = false := by simpa using same
      simp [get?, List.lookup_append, List.lookup_cons, same, other]

theorem get?_erase (q : ReceiveQueue) (id j : PacketId) :
    (q.erase id).get? j = if j = id then none else q.get? j := by
  obtain ⟨payloads⟩ := q
  simp only [erase, get?]
  induction payloads with
  | nil => simp
  | cons x rest ih =>
    obtain ⟨k, payload⟩ := x
    by_cases dropped : k = id
    · have out : (k != id) = false := by simp [dropped]
      rw [List.filter_cons_of_neg (by simp [out]), ih]
      by_cases same : j = id
      · simp [same]
      · have other : (j == k) = false := by simp [dropped, same]
        simp [same, List.lookup_cons, other]
    · rw [List.filter_cons_of_pos (by simp [dropped]), List.lookup_cons, List.lookup_cons, ih]
      by_cases same : j = k
      · simp [same, dropped]
      · have other : (j == k) = false := by simpa using same
        simp [other]

theorem length_erase_lt {q : ReceiveQueue} {id : PacketId} {payload : Bytes}
    (h : q.get? id = some payload) : (q.erase id).length < q.length := by
  refine Nat.lt_of_le_of_ne (List.length_filter_le _ _) fun kept => ?_
  obtain ⟨x, hx, eq⟩ : ∃ x ∈ q.payloads, x.1 = id := by
    obtain ⟨before, after, split, _⟩ := List.lookup_eq_some_iff.mp h
    exact ⟨(id, payload), by simp [split], rfl⟩
  have all := List.length_filter_eq_length_iff.mp kept
  simpa [eq] using all x hx

/-- Takes out the payload of the expected id, and returns it with the id after it. -/
def pop? (q : ReceiveQueue) (expected : PacketId) : Option (Bytes × PacketId × ReceiveQueue) :=
  (q.get? expected).map fun payload => (payload, expected.next, q.erase expected)

/-- Takes out the run of payloads that starts at the expected id, and returns it with the id
after it. -/
def drain (q : ReceiveQueue) (expected : PacketId) : List Bytes × PacketId × ReceiveQueue :=
  match _h : q.get? expected with
  | none => ([], expected, q)
  | some payload =>
    let (payloads, after, rest) := (q.erase expected).drain expected.next
    (payload :: payloads, after, rest)
termination_by q.length
decreasing_by exact length_erase_lt _h

theorem drain_missing {q : ReceiveQueue} {id : PacketId} (missing : q.get? id = none) :
    q.drain id = ([], id, q) := by
  rw [drain]
  split
  · rfl
  · next found =>
    rw [missing] at found
    cases found

theorem drain_found {q : ReceiveQueue} {id : PacketId} {bytes : Bytes}
    (found : q.get? id = some bytes) :
    q.drain id = (bytes :: ((q.erase id).drain id.next).1, ((q.erase id).drain id.next).2) := by
  rw [drain]
  split
  · next missing =>
    rw [missing] at found
    cases found
  · next kept =>
    rw [kept] at found
    cases found
    rfl

end ReceiveQueue

end ReliableDatagram
