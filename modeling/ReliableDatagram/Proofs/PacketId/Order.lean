import ReliableDatagram.Proofs.PacketId
import Mathlib.Dynamics.PeriodicPts.Defs
import Mathlib.Order.Defs.Unbundled

/-!
# The order of the ids

Past a stream start the ids form one cycle of odd length. The newer one of two ids is where the shorter
way from the other one leads, so the ids of half the cycle are in order, wherever it begins
(`half_ordered`).
-/

namespace ReliableDatagram.PacketId

variable {a b : PacketId} {j k : Nat}

section Cycle

theorem iterate_next_cycle (later : a ≠ streamStart) : next^[cycle] a = a := by
  refine eq_of_position_eq (iterate_next_ne later cycle) later ?_
  rw [position_iterate_next later, Nat.add_mod_right, Nat.mod_eq_of_lt a.position_lt]

theorem minimalPeriod_next (later : a ≠ streamStart) :
    Function.minimalPeriod next a = cycle := by
  have pos : 0 < cycle := by decide
  have whole : Function.IsPeriodicPt next cycle a := iterate_next_cycle later
  refine Nat.le_antisymm (whole.minimalPeriod_le pos) (Nat.le_of_not_lt fun less => ?_)
  -- A shorter period would bring `a` back within one round, in which no id recurs.
  have again : next^[Function.minimalPeriod next a] a = next^[0] a :=
    Function.iterate_minimalPeriod
  have zero := (iterate_next_inj later less pos).mp again
  exact absurd zero (Nat.ne_of_gt (whole.minimalPeriod_pos pos))

end Cycle

section Comparison

/-- Past half the cycle the way back is the shorter one. -/
theorem distanceTo_iterate_next_far (later : a ≠ streamStart) (far : cycle / 2 < k)
    (within : k < cycle) : a.distanceTo (next^[k] a) = (k : Int) - cycle := by
  -- Seen from the end of the round, which is `a` again, the id lies near.
  have odd : cycle = 2 * (cycle / 2) + 1 := rfl
  have back := distanceTo_iterate_next later (j := cycle) (k := k) (by omega) (by omega)
  rwa [iterate_next_cycle later] at back

theorem distanceTo_swap (a b : PacketId) : b.distanceTo a = -a.distanceTo b := by
  have forth := distanceTo_spec a b
  have back := distanceTo_spec b a
  omega

theorem natAbs_distanceTo_le (a b : PacketId) : (a.distanceTo b).natAbs ≤ cycle / 2 := by
  have near := (distanceTo_spec a b).1
  omega

theorem distanceTo_eq_zero_iff (later : a ≠ streamStart) (later' : b ≠ streamStart) :
    a.distanceTo b = 0 ↔ a = b := by
  constructor
  · exact fun zero => (eq_of_distanceTo_eq_zero later later' zero).symm
  · rintro rfl
    exact distanceTo_self a

theorem isNewerThan_iff : a.isNewerThan b = true ↔ 0 < b.distanceTo a := decide_eq_true_iff

/-- Of two ids exactly one is newer. -/
theorem isNewerThan_eq_not (later : a ≠ streamStart) (later' : b ≠ streamStart)
    (differ : a ≠ b) : a.isNewerThan b = !b.isNewerThan a := by
  have swap := distanceTo_swap a b
  have apart : a.distanceTo b ≠ 0 := fun zero =>
    differ ((distanceTo_eq_zero_iff later later').mp zero)
  rw [Bool.eq_not_iff, Ne, Bool.eq_iff_iff, isNewerThan_iff, isNewerThan_iff]
  omega

end Comparison

section Order

/-- The id itself and the ids that follow it up to half the cycle. -/
def span (a : PacketId) : Set PacketId := {i | ∃ k ≤ cycle / 2, next^[k] a = i}

theorem isNewerThan_iterate_next (later : a ≠ streamStart) (jShort : j ≤ cycle / 2)
    (kShort : k ≤ cycle / 2) : (next^[k] a).isNewerThan (next^[j] a) = true ↔ j < k := by
  rw [isNewerThan_iff, distanceTo_iterate_next later (by omega) (by omega)]
  omega

/-- On a span the order of the ids is the one of the steps that lead to them. -/
theorem isStrictTotalOrder_of_subset_span (later : a ≠ streamStart) {ids : Set PacketId}
    (spanned : ids ⊆ a.span) :
    IsStrictTotalOrder ids fun i j => i.val.isNewerThan j.val = true where
  irrefl := by
    rintro ⟨i, mem⟩ newer
    obtain ⟨k, near, rfl⟩ := spanned mem
    exact absurd ((isNewerThan_iterate_next later near near).mp newer) (Nat.lt_irrefl k)
  trans := by
    rintro ⟨x, xMem⟩ ⟨y, yMem⟩ ⟨z, zMem⟩ newer newer'
    obtain ⟨k, kNear, rfl⟩ := spanned xMem
    obtain ⟨j, jNear, rfl⟩ := spanned yMem
    obtain ⟨i, iNear, rfl⟩ := spanned zMem
    have first := (isNewerThan_iterate_next later jNear kNear).mp newer
    have second := (isNewerThan_iterate_next later iNear jNear).mp newer'
    exact (isNewerThan_iterate_next later iNear kNear).mpr (Nat.lt_trans second first)
  trichotomous := by
    rintro ⟨x, xMem⟩ ⟨y, yMem⟩ notNewer notOlder
    obtain ⟨k, kNear, rfl⟩ := spanned xMem
    obtain ⟨j, jNear, rfl⟩ := spanned yMem
    have least : ¬j < k := fun less =>
      notNewer ((isNewerThan_iterate_next later jNear kNear).mpr less)
    have most : ¬k < j := fun less =>
      notOlder ((isNewerThan_iterate_next later kNear jNear).mpr less)
    obtain rfl : j = k := by omega
    rfl

/-- The ids past a stream start as they are seen from one of them: a cycle of which the half that
begins here is in order. -/
structure HalfOrdered (a : PacketId) : Prop where
  past_start (k : Nat) : next^[k] a ≠ streamStart
  period : Function.minimalPeriod next a = cycle
  ahead {k : Nat} (near : k ≤ cycle / 2) : a.distanceTo (next^[k] a) = k
  behind {k : Nat} (near : k ≤ cycle / 2) : (next^[k] a).distanceTo a = -k
  beyond {k : Nat} (far : cycle / 2 < k) (within : k < cycle) :
    a.distanceTo (next^[k] a) = (k : Int) - cycle
  swap (b : PacketId) : b.distanceTo a = -a.distanceTo b
  apart {b : PacketId} (later : b ≠ streamStart) : a.distanceTo b = 0 ↔ a = b
  near (b : PacketId) : (a.distanceTo b).natAbs ≤ cycle / 2
  one_newer {b : PacketId} (later : b ≠ streamStart) (differ : a ≠ b) :
    a.isNewerThan b = !b.isNewerThan a
  ordered {ids : Set PacketId} (spanned : ids ⊆ a.span) :
    IsStrictTotalOrder ids fun i j => i.val.isNewerThan j.val = true

theorem half_ordered (later : a ≠ streamStart) : HalfOrdered a where
  past_start := iterate_next_ne later
  period := minimalPeriod_next later
  ahead := by
    intro k near
    simpa using distanceTo_iterate_next later (j := 0) (k := k) (by omega) (by omega)
  behind := by
    intro k near
    simpa using distanceTo_iterate_next later (j := k) (k := 0) (by omega) (by omega)
  beyond := distanceTo_iterate_next_far later
  swap := distanceTo_swap a
  apart := distanceTo_eq_zero_iff later
  near := natAbs_distanceTo_le a
  one_newer := isNewerThan_eq_not later
  ordered := isStrictTotalOrder_of_subset_span later

/-- The last two ids before the wrap and the first one after it. -/
def acrossWrap : Set PacketId := {⟨0xfffffffe⟩, ⟨0xffffffff⟩, ⟨1⟩}

theorem half_ordered_across_wrap :
    (⟨0xfffffffe⟩ : PacketId) ≠ streamStart ∧ HalfOrdered ⟨0xfffffffe⟩ ∧
      acrossWrap ⊆ span ⟨0xfffffffe⟩ ∧
      IsStrictTotalOrder acrossWrap (fun i j => i.val.isNewerThan j.val = true) ∧
      (⟨1⟩ : PacketId).isNewerThan ⟨0xfffffffe⟩ = true := by
  have later : (⟨0xfffffffe⟩ : PacketId) ≠ streamStart := by decide
  have spanned : acrossWrap ⊆ span ⟨0xfffffffe⟩ := by
    rintro i (rfl | rfl | rfl)
    · exact ⟨0, by decide, rfl⟩
    · exact ⟨1, by decide, rfl⟩
    · exact ⟨2, by decide, rfl⟩
  have ordered := half_ordered later
  exact ⟨later, ordered, spanned, ordered.ordered spanned, by decide⟩

end Order

end ReliableDatagram.PacketId
