import ReliableDatagram.SendQueue

/-!
# What a send queue holds

Deadlines and attempts aside, a send queue is a list of ids with the bytes that were sent.
-/

namespace ReliableDatagram.SendQueue

def contents (q : SendQueue) : List (PacketId × Bytes) := q.entries.map fun e => (e.id, e.packet)

theorem isFull_congr {q q' : SendQueue} (contents : q'.contents = q.contents)
    (limit : q'.limit = q.limit) : q'.isFull = q.isFull := by
  have length (q : SendQueue) : q.length = q.contents.length := by
    simp [SendQueue.length, SendQueue.contents]
  rw [isFull, isFull, length, length, contents, limit]

@[simp] theorem contents_push (q : SendQueue) (e : Entry) :
    (q.push e).contents = q.contents ++ [(e.id, e.packet)] := by simp [contents, push]

@[simp] theorem contents_clear (q : SendQueue) : q.clear.contents = [] := rfl

theorem contains_iff {q : SendQueue} {id : PacketId} :
    q.contains id = true ↔ ∃ bytes, (id, bytes) ∈ q.contents := by
  simp only [contains, contents, List.any_eq_true, beq_iff_eq, List.mem_map, Prod.mk.injEq]
  constructor
  · rintro ⟨e, held, rfl⟩
    exact ⟨e.packet, e, held, rfl, rfl⟩
  · rintro ⟨bytes, e, held, same, _⟩
    exact ⟨e, held, same⟩

theorem of_remove? {q q' : SendQueue} {id : PacketId} {e : Entry}
    (removed : q.remove? id = some (e, q')) :
    e ∈ q.entries ∧ e.id = id ∧ q'.entries = q.entries.eraseP (·.id == id) := by
  obtain ⟨x, found, same⟩ := Option.map_eq_some_iff.mp removed
  obtain ⟨rfl, rfl⟩ := Prod.mk.inj same
  have own := List.find?_some found
  exact ⟨List.mem_of_find?_eq_some found, eq_of_beq own, rfl⟩

theorem contents_remove? {q q' : SendQueue} {id : PacketId} {e : Entry}
    (removed : q.remove? id = some (e, q')) : q'.contents = q.contents.eraseP (·.1 == id) := by
  unfold remove? at removed
  obtain ⟨_, _, same⟩ := Option.map_eq_some_iff.mp removed
  obtain ⟨_, rfl⟩ := Prod.mk.inj same
  simp only [contents, List.eraseP_map]
  rfl

theorem limit_remove? {q q' : SendQueue} {id : PacketId} {e : Entry}
    (removed : q.remove? id = some (e, q')) : q'.limit = q.limit := by
  obtain ⟨_, _, same⟩ := Option.map_eq_some_iff.mp removed
  rw [← (Prod.mk.inj same).2]

theorem mem_contents_of_remove? {q q' : SendQueue} {id : PacketId} {e : Entry}
    (removed : q.remove? id = some (e, q')) {x : PacketId × Bytes} (held : x ∈ q'.contents) :
    x ∈ q.contents := by
  rw [contents_remove? removed] at held
  exact List.mem_of_mem_eraseP held

theorem mem_of_mem_live {q : SendQueue} {now budget : Nat} {e : Entry}
    (mem : e ∈ q.live now budget) : e ∈ q.entries := by
  rw [← q.live_append_spent now budget]
  exact List.mem_append_left _ mem

/-- A pass over the queue changes deadlines and attempts only. -/
theorem contents_resend (q : SendQueue) (now budget deadline limit : Nat) :
    SendQueue.contents
      ⟨resendExpired now deadline (q.live now budget) ++ q.spent now budget, limit⟩ =
      q.contents := by
  have entry (e : Entry) : ((if e.isExpired now then e.resend deadline else e).id,
      (if e.isExpired now then e.resend deadline else e).packet) = (e.id, e.packet) := by
    split <;> rfl
  simp only [contents, resendExpired, List.map_append, List.map_map]
  rw [← q.live_append_spent now budget, List.map_append]
  congr 1
  exact List.map_congr_left fun e _ => entry e

end ReliableDatagram.SendQueue
