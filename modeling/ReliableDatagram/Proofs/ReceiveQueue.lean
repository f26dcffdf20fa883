import Mathlib.Data.List.Nodup
import ReliableDatagram.ReceiveQueue

/-!
# The number of early packets

As long as no id is listed twice, taking a payload out makes a receive queue one shorter, so that
nothing is lost when a run of payloads is drained.
-/

namespace ReliableDatagram.ReceiveQueue

variable {q : ReceiveQueue} {id : PacketId}

/-- No id is listed twice. -/
def Distinct (q : ReceiveQueue) : Prop := (q.payloads.map Prod.fst).Nodup

theorem distinct_empty : Distinct {} := List.nodup_nil

/-- An id is listed if a payload is kept under it. -/
theorem contains_iff_mem : q.contains id = true ↔ id ∈ q.payloads.map Prod.fst := by
  obtain ⟨payloads⟩ := q
  simp only [contains, get?]
  induction payloads with
  | nil => simp
  | cons x rest ih =>
    obtain ⟨k, payload⟩ := x
    by_cases here : id = k
    · simp [here]
    · have other : (id == k) = false := by simpa using here
      simp [List.lookup_cons, other, here, ih]

theorem Distinct.insert (distinct : q.Distinct) (id : PacketId) (payload : Bytes) :
    (q.insert id payload).Distinct := by
  unfold ReceiveQueue.insert
  split
  · exact distinct
  · next missing =>
    have new : id ∉ q.payloads.map Prod.fst := fun listed => missing (contains_iff_mem.mpr listed)
    rw [Distinct, List.map_append, List.nodup_append]
    refine ⟨distinct, List.nodup_singleton _, fun x listed y own same => new ?_⟩
    have own : y = id := List.mem_singleton.mp own
    rwa [← own, ← same]

theorem Distinct.erase (distinct : q.Distinct) (id : PacketId) : (q.erase id).Distinct :=
  List.Nodup.sublist (List.filter_sublist.map _) distinct

theorem length_insert (missing : q.contains id = false) (payload : Bytes) :
    (q.insert id payload).length = q.length + 1 := by
  simp [insert, missing, length]

/-- Just one payload is kept under an id. -/
theorem Distinct.length_erase (distinct : q.Distinct) (found : (q.get? id).isSome) :
    (q.erase id).length + 1 = q.length := by
  have listed : id ∈ q.payloads.map Prod.fst := contains_iff_mem.mp found
  obtain ⟨x, mem, rfl⟩ := List.mem_map.mp listed
  obtain ⟨before, after, split⟩ := List.append_of_mem mem
  have apart : ∀ y ∈ before ++ after, y.1 ≠ x.1 := by
    intro y other same
    rw [Distinct, split, List.map_append, List.map_cons, List.nodup_middle] at distinct
    refine (List.nodup_cons.mp distinct).1 ?_
    rw [← same, ← List.map_append]
    exact List.mem_map_of_mem other
  have kept : (q.erase x.1).payloads = before ++ after := by
    have front : before.filter (·.1 != x.1) = before :=
      List.filter_eq_self.mpr fun y mem => by simpa using apart y (List.mem_append_left _ mem)
    have back : after.filter (·.1 != x.1) = after :=
      List.filter_eq_self.mpr fun y mem => by simpa using apart y (List.mem_append_right _ mem)
    simp [ReceiveQueue.erase, split, front, back]
  simp only [length, kept, split, List.length_append, List.length_cons]
  omega

theorem Distinct.drain (distinct : q.Distinct) (id : PacketId) : (q.drain id).2.2.Distinct := by
  induction q, id using ReceiveQueue.drain.induct with
  | case1 q id missing =>
    rw [drain_missing missing]
    exact distinct
  | case2 q id payload found payloads after rest drained ih =>
    rw [drain_found found]
    exact ih (distinct.erase id)

/-- A payload is taken out or stays. -/
theorem Distinct.length_drain (distinct : q.Distinct) (id : PacketId) :
    (q.drain id).1.length + (q.drain id).2.2.length = q.length := by
  induction q, id using ReceiveQueue.drain.induct with
  | case1 q id missing =>
    rw [drain_missing missing]
    exact Nat.zero_add _
  | case2 q id payload found payloads after rest drained ih =>
    have taken := distinct.length_erase (by rw [found]; rfl)
    have later := ih (distinct.erase id)
    rw [drain_found found, ← taken, ← later]
    exact Nat.add_right_comm _ _ _

end ReliableDatagram.ReceiveQueue
