import ReliableDatagram.PacketId
import Mathlib.Logic.Function.Iterate

/-!
# Ids along a stream

The packets of a stream carry the stream start and the ids that follow it one by one. Up to half
the cycle, the distance between two of them is the difference of their places in the stream, also where the
ids wrap around.
-/

namespace ReliableDatagram.PacketId

/-- The id of the `k`-th packet of a stream. -/
def nth : Nat → PacketId
  | 0 => streamStart
  | k + 1 => (nth k).next

/-- The length up to which all ids of a stream can be told apart and ordered. -/
def horizon : Nat := 0x80000000

theorem toNat_nth_cycle {k : Nat} (short : k ≤ cycle) : (nth k).raw.toNat = k := by
  induction k with
  | zero => rfl
  | succ k ih =>
    have before := ih (by omega)
    rw [nth, toNat_next, before, if_neg (by omega)]

/-- A stream start and one cycle of ids can be told apart. -/
theorem nth_inj_cycle {j k : Nat} (jShort : j ≤ cycle) (kShort : k ≤ cycle) :
    nth j = nth k ↔ j = k := by
  constructor
  · intro same
    have := congrArg (fun i => i.raw.toNat) same
    simpa only [toNat_nth_cycle jShort, toNat_nth_cycle kShort] using this
  · exact congrArg nth

theorem horizon_le_cycle : horizon ≤ cycle := by decide

theorem toNat_nth {k : Nat} (short : k ≤ horizon) : (nth k).raw.toNat = k :=
  toNat_nth_cycle (Nat.le_trans short horizon_le_cycle)

theorem nth_inj {j k : Nat} (jShort : j ≤ horizon) (kShort : k ≤ horizon) :
    nth j = nth k ↔ j = k :=
  nth_inj_cycle (Nat.le_trans jShort horizon_le_cycle) (Nat.le_trans kShort horizon_le_cycle)

@[simp] theorem nth_zero : nth 0 = streamStart := rfl

theorem nth_succ_ne (k : Nat) : nth (k + 1) ≠ streamStart := next_ne_streamStart _

theorem nth_eq_streamStart {k : Nat} : nth k = streamStart ↔ k = 0 := by
  cases k with
  | zero => exact ⟨fun _ => rfl, fun _ => rfl⟩
  | succ k => exact ⟨fun start => absurd start (nth_succ_ne k), fun zero => by cases zero⟩

theorem distanceTo_nth {j k : Nat} (jPos : 0 < j) (kPos : 0 < k) (jShort : j ≤ horizon)
    (kShort : k ≤ horizon) : (nth j).distanceTo (nth k) = (k : Int) - j := by
  have jNat := toNat_nth jShort
  have kNat := toNat_nth kShort
  simp only [horizon] at jShort kShort
  simp only [distanceTo, position, jNat, kNat, cycle]
  by_cases ahead : j ≤ k
  · have forward : (k - 1 + 4294967295 - (j - 1)) % 4294967295 = k - j := by omega
    rw [forward, if_neg (by omega)]
    omega
  · have forward : (k - 1 + 4294967295 - (j - 1)) % 4294967295 = 4294967295 - (j - k) := by omega
    rw [forward, if_pos (by omega)]
    omega

section Distance

variable {e i : PacketId}

theorem position_lt (e : PacketId) : e.position < cycle := by
  have bound := e.raw.toNat_lt
  unfold position cycle
  omega

theorem toNat_ne_zero (later : e ≠ streamStart) : e.raw.toNat ≠ 0 := by
  intro zero
  cases e
  exact later (congrArg PacketId.mk (UInt32.toNat_inj.mp zero))

/-- Past a stream start, ids that stand at the same place are the same. -/
theorem eq_of_position_eq (later : e ≠ streamStart) (later' : i ≠ streamStart)
    (same : e.position = i.position) : e = i := by
  have pos := toNat_ne_zero later
  have pos' := toNat_ne_zero later'
  have same : e.raw.toNat = i.raw.toNat := by
    unfold position at same
    omega
  cases e
  exact congrArg PacketId.mk (UInt32.toNat_inj.mp same)

theorem position_next (later : e ≠ streamStart) :
    e.next.position = e.position + 1 ∨ e.position + 1 = cycle ∧ e.next.position = 0 := by
  have pos := toNat_ne_zero later
  unfold position
  rw [toNat_next]
  split <;> omega

/-- The distance is the step from the one place to the other, modulo the cycle, that is shorter than
half of it. -/
theorem distanceTo_spec (e i : PacketId) :
    2 * (e.distanceTo i).natAbs < cycle ∧
      ((i.position : Int) = e.position + e.distanceTo i ∨
        (i.position : Int) + cycle = e.position + e.distanceTo i ∨
        (i.position : Int) = e.position + e.distanceTo i + cycle) := by
  have := e.position_lt
  have := i.position_lt
  have forward : (i.position + cycle - e.position) % cycle =
      if e.position ≤ i.position then i.position - e.position
      else i.position + cycle - e.position := by
    split
    · rw [show i.position + cycle - e.position = i.position - e.position + cycle by omega,
        Nat.add_mod_right, Nat.mod_eq_of_lt (by omega)]
    · exact Nat.mod_eq_of_lt (by omega)
  have odd : cycle = 2 * (cycle / 2) + 1 := rfl
  simp only [distanceTo, forward]
  split <;> split <;> omega

@[simp] theorem distanceTo_self (e : PacketId) : e.distanceTo e = 0 := by
  have := distanceTo_spec e e
  unfold cycle at this
  omega

theorem eq_of_distanceTo_eq_zero (later : e ≠ streamStart) (later' : i ≠ streamStart)
    (same : e.distanceTo i = 0) : i = e := by
  have := distanceTo_spec e i
  have := e.position_lt
  have := i.position_lt
  exact eq_of_position_eq later' later (by omega)

/-- What lies ahead is one step nearer after a step. -/
theorem distanceTo_next (later : e ≠ streamStart) (ahead : 0 < e.distanceTo i) :
    e.next.distanceTo i = e.distanceTo i - 1 := by
  have := distanceTo_spec e i
  have := distanceTo_spec e.next i
  have := e.position_lt
  have := i.position_lt
  rcases position_next later with step | ⟨last, wrap⟩ <;> omega

theorem iterate_next_ne (later : e ≠ streamStart) (k : Nat) : next^[k] e ≠ streamStart := by
  cases k with
  | zero => exact later
  | succ k =>
    rw [Function.iterate_succ_apply']
    exact next_ne_streamStart _

theorem position_iterate_next (later : e ≠ streamStart) (k : Nat) :
    (next^[k] e).position = (e.position + k) % cycle := by
  induction k with
  | zero => exact (Nat.mod_eq_of_lt e.position_lt).symm
  | succ k ih =>
    rw [Function.iterate_succ_apply']
    unfold cycle at ih ⊢
    rcases position_next (iterate_next_ne later k) with step | ⟨last, wrap⟩
    · have bound := (next^[k] e).next.position_lt
      unfold cycle at bound
      omega
    · unfold cycle at last
      omega

/-- Of as many ids in a row as the cycle has, no two are the same. -/
theorem iterate_next_inj (later : e ≠ streamStart) {j k : Nat} (jShort : j < cycle)
    (kShort : k < cycle) : next^[j] e = next^[k] e ↔ j = k := by
  constructor
  · intro same
    have places := congrArg position same
    rw [position_iterate_next later, position_iterate_next later] at places
    unfold cycle at jShort kShort places
    omega
  · rintro rfl
    rfl

/-- Up to half the cycle, the distance counts the steps, forward or back. -/
theorem distanceTo_iterate_next (later : e ≠ streamStart) {j k : Nat}
    (forward : k ≤ j + cycle / 2) (back : j ≤ k + cycle / 2) :
    (next^[j] e).distanceTo (next^[k] e) = (k : Int) - j := by
  obtain ⟨near, places⟩ := distanceTo_spec (next^[j] e) (next^[k] e)
  rw [position_iterate_next later, position_iterate_next later] at places
  unfold cycle at forward back near places
  omega

end Distance

end ReliableDatagram.PacketId
