import ReliableDatagram.Rtt
import Mathlib.Data.Nat.Dist
import Mathlib.Order.Interval.Set.Defs
import Mathlib.Order.Monotone.Basic

/-!
# The smoothed time

However often it starts over, the smoothed time stays among the samples (`measured_ofSamples`). If they
are all the same it comes to rest (`comes_to_rest`): from above at the sample itself, from below up to
ten nanoseconds short of it, where an eleventh of what is missing is no whole nanosecond.
-/

namespace ReliableDatagram.RttEstimator

variable {e : RttEstimator} {samples before after : List Nat} {lo hi v k : Nat}

theorem smoothed_onSample_of_zero (empty : e.smoothed = 0) : (e.onSample v).smoothed = v :=
  if_pos empty

theorem smoothed_onSample_of_pos (started : 0 < e.smoothed) :
    (e.onSample v).smoothed = (e.smoothed * 10 + v) / 11 :=
  if_neg (Nat.ne_of_gt started)

/-- An average lies between what it is made of. -/
theorem smoothed_onSample_mem_Icc (inside : e.smoothed ∈ Set.Icc lo hi)
    (sample : v ∈ Set.Icc lo hi) : (e.onSample v).smoothed ∈ Set.Icc lo hi := by
  rcases Nat.eq_zero_or_pos e.smoothed with empty | started
  · rwa [smoothed_onSample_of_zero empty]
  · obtain ⟨low, high⟩ := inside
    obtain ⟨low', high'⟩ := sample
    rw [smoothed_onSample_of_pos started]
    constructor <;> omega

theorem smoothed_foldl_mem_Icc (inside : e.smoothed ∈ Set.Icc lo hi)
    (among : ∀ v ∈ samples, v ∈ Set.Icc lo hi) :
    (samples.foldl onSample e).smoothed ∈ Set.Icc lo hi := by
  induction samples generalizing e with
  | nil => exact inside
  | cons v samples ih =>
    obtain ⟨first, rest⟩ := List.forall_mem_cons.mp among
    exact ih (smoothed_onSample_mem_Icc inside first) rest

section Samples

/-- A fresh estimator after these samples. -/
def ofSamples (samples : List Nat) : RttEstimator := samples.foldl onSample {}

/-- The first sample is taken as it is, so nothing remains of what a fresh estimator starts with. -/
theorem smoothed_ofSamples_mem_Icc (taken : samples ≠ [])
    (among : ∀ v ∈ samples, v ∈ Set.Icc lo hi) : (ofSamples samples).smoothed ∈ Set.Icc lo hi := by
  cases samples with
  | nil => exact absurd rfl taken
  | cons v samples =>
    obtain ⟨first, rest⟩ := List.forall_mem_cons.mp among
    exact smoothed_foldl_mem_Icc (e := onSample {} v) first rest

theorem smoothed_ofSamples_min_max (taken : samples ≠ []) :
    (ofSamples samples).smoothed ∈ Set.Icc (samples.min taken) (samples.max taken) :=
  smoothed_ofSamples_mem_Icc taken fun _ mem => ⟨List.min_le_of_mem mem, List.le_max_of_mem mem⟩

theorem exists_smoothed_le (taken : samples ≠ []) :
    ∃ v ∈ samples, (ofSamples samples).smoothed ≤ v :=
  ⟨samples.max taken, List.max_mem taken, (smoothed_ofSamples_min_max taken).2⟩

/-- The samples before one are no longer than the longest of all, and so is what they make. -/
theorem sum_le_of_split (taken : samples ≠ []) (split : samples = before ++ v :: after) :
    (ofSamples before).smoothed * 10 + v ≤ samples.max taken * 11 := by
  have longest (w : Nat) (mem : w ∈ before ++ v :: after) : w ≤ samples.max taken :=
    List.le_max_of_mem (split ▸ mem)
  have old : (ofSamples before).smoothed ∈ Set.Icc 0 (samples.max taken) :=
    smoothed_foldl_mem_Icc ⟨Nat.le_refl 0, Nat.zero_le _⟩ fun w mem =>
      ⟨Nat.zero_le w, longest w (List.mem_append_left _ mem)⟩
  have new := longest v (List.mem_append_right _ List.mem_cons_self)
  have high := old.2
  omega

theorem retransmitTimeout_mem_Icc (e : RttEstimator) (maxRtt margin : Nat) :
    e.retransmitTimeout maxRtt margin ∈ Set.Icc margin (maxRtt + margin) :=
  ⟨Nat.le_add_left _ _, Nat.add_le_add_right (Nat.min_le_right _ _) _⟩

theorem monotone_retransmitTimeout (last maxRtt margin : Nat) :
    Monotone fun smoothed => retransmitTimeout ⟨last, smoothed⟩ maxRtt margin := by
  intro s t order
  simp only [retransmitTimeout]
  omega

/-- What samples say of the smoothed time that is made of them, and of the timeout. -/
structure Measured (samples : List Nat) : Prop where
  among (taken : samples ≠ []) :
    (ofSamples samples).smoothed ∈ Set.Icc (samples.min taken) (samples.max taken)
  /-- Nothing longer is computed on the way. -/
  sums {before after : List Nat} {v : Nat} (taken : samples ≠ [])
    (split : samples = before ++ v :: after) :
    (ofSamples before).smoothed * 10 + v ≤ samples.max taken * 11
  timeout (maxRtt margin : Nat) :
    (ofSamples samples).retransmitTimeout maxRtt margin ∈ Set.Icc margin (maxRtt + margin)

/-- The smoothed time is among the samples, and the timeout grows with it between two bounds. -/
theorem measured_ofSamples (samples : List Nat) :
    Measured samples ∧ ∀ last maxRtt margin : Nat,
      Monotone fun smoothed => retransmitTimeout ⟨last, smoothed⟩ maxRtt margin := by
  refine ⟨?_, monotone_retransmitTimeout⟩
  exact {
    among := smoothed_ofSamples_min_max
    sums := sum_le_of_split
    timeout := retransmitTimeout_mem_Icc _ }

/-- An average that rounds down to nothing starts over with the next sample. -/
example : (ofSamples [1, 0]).smoothed = 0 ∧ (ofSamples [1, 0, 7]).smoothed = 7 := by decide

end Samples

section Repetition

/-- What becomes of an estimator in `k` samples of the same value. -/
def repeated (e : RttEstimator) (v k : Nat) : RttEstimator := (List.replicate k v).foldl onSample e

theorem repeated_succ (e : RttEstimator) (v k : Nat) :
    e.repeated v (k + 1) = (e.repeated v k).onSample v := by
  rw [repeated, List.replicate_succ', List.foldl_append]
  rfl

theorem smoothed_repeated_mem_Icc (inside : e.smoothed ∈ Set.Icc lo hi)
    (sample : v ∈ Set.Icc lo hi) (k : Nat) : (e.repeated v k).smoothed ∈ Set.Icc lo hi := by
  refine smoothed_foldl_mem_Icc inside fun w mem => ?_
  rwa [List.eq_of_mem_replicate mem]

theorem repeated_le (below : e.smoothed ≤ v) (k : Nat) : (e.repeated v k).smoothed ≤ v :=
  (smoothed_repeated_mem_Icc ⟨Nat.zero_le _, below⟩ ⟨Nat.zero_le v, Nat.le_refl v⟩ k).2

theorem le_repeated (above : v ≤ e.smoothed) (k : Nat) : v ≤ (e.repeated v k).smoothed :=
  (smoothed_repeated_mem_Icc ⟨above, Nat.le_refl _⟩ ⟨Nat.le_refl v, above⟩ k).1

theorem monotone_repeated (below : e.smoothed ≤ v) :
    Monotone fun k => (e.repeated v k).smoothed := by
  refine monotone_nat_of_le_succ fun k => ?_
  have high := repeated_le below k
  rw [repeated_succ]
  exact (smoothed_onSample_mem_Icc ⟨Nat.le_refl _, high⟩ ⟨high, Nat.le_refl v⟩).1

theorem antitone_repeated (above : v ≤ e.smoothed) :
    Antitone fun k => (e.repeated v k).smoothed := by
  refine antitone_nat_of_succ_le fun k => ?_
  have low := le_repeated above k
  rw [repeated_succ]
  exact (smoothed_onSample_mem_Icc ⟨low, Nat.le_refl _⟩ ⟨Nat.le_refl v, low⟩).2

/-- Where the smoothed time comes to rest if all samples are `v`. -/
def limit (e : RttEstimator) (v : Nat) : Nat :=
  if 0 < e.smoothed ∧ e.smoothed < v then max e.smoothed (v - 10) else v

theorem limit_of_below (started : 0 < e.smoothed) (below : e.smoothed < v) :
    e.limit v = max e.smoothed (v - 10) :=
  if_pos ⟨started, below⟩

theorem limit_of_not_below (arrives : v ≤ e.smoothed ∨ e.smoothed = 0) : e.limit v = v :=
  if_neg (by omega)

theorem limit_onSample (e : RttEstimator) (v : Nat) : (e.onSample v).limit v = e.limit v := by
  rcases Nat.eq_zero_or_pos e.smoothed with empty | started
  · have arrived := smoothed_onSample_of_zero (v := v) empty
    rw [limit_of_not_below (.inr empty), limit_of_not_below (.inl (Nat.le_of_eq arrived.symm))]
  · have step := smoothed_onSample_of_pos (v := v) started
    rcases Nat.lt_or_ge e.smoothed v with below | above
    · -- If more than ten are missing, at least ten still are after the step, and else it is none.
      rw [limit_of_below started below, limit_of_below (by omega) (by omega)]
      omega
    · rw [limit_of_not_below (.inl above), limit_of_not_below (.inl (by omega))]

/-- A sample takes an eleventh of the way that is left, rounded up. -/
theorem dist_onSample (e : RttEstimator) (v : Nat) :
    (e.onSample v).smoothed.dist (e.limit v) ≤ e.smoothed.dist (e.limit v) * 10 / 11 := by
  rcases Nat.eq_zero_or_pos e.smoothed with empty | started
  · rw [limit_of_not_below (.inr empty), smoothed_onSample_of_zero empty, Nat.dist_self]
    exact Nat.zero_le _
  · rw [smoothed_onSample_of_pos started]
    rcases Nat.lt_or_ge e.smoothed v with below | above
    · rw [limit_of_below started below, Nat.dist, Nat.dist]
      omega
    · rw [limit_of_not_below (.inl above), Nat.dist, Nat.dist]
      omega

theorem limit_repeated (e : RttEstimator) (v k : Nat) : (e.repeated v k).limit v = e.limit v := by
  induction k with
  | zero => rfl
  | succ k ih => rw [repeated_succ, limit_onSample, ih]

theorem dist_repeated_succ (e : RttEstimator) (v k : Nat) :
    (e.repeated v (k + 1)).smoothed.dist (e.limit v) ≤
      (e.repeated v k).smoothed.dist (e.limit v) * 10 / 11 := by
  have step := dist_onSample (e.repeated v k) v
  rwa [limit_repeated, ← repeated_succ] at step

theorem dist_repeated_le (e : RttEstimator) (v k : Nat) :
    11 ^ k * (e.repeated v k).smoothed.dist (e.limit v) ≤
      10 ^ k * e.smoothed.dist (e.limit v) := by
  induction k with
  | zero => exact Nat.le_refl _
  | succ k ih =>
    have step := dist_repeated_succ e v k
    calc 11 ^ (k + 1) * (e.repeated v (k + 1)).smoothed.dist (e.limit v)
      _ = 11 ^ k * (11 * (e.repeated v (k + 1)).smoothed.dist (e.limit v)) := by
        rw [Nat.pow_succ, Nat.mul_assoc]
      _ ≤ 11 ^ k * (10 * (e.repeated v k).smoothed.dist (e.limit v)) :=
        Nat.mul_le_mul_left _ (by omega)
      _ = 10 * (11 ^ k * (e.repeated v k).smoothed.dist (e.limit v)) := Nat.mul_left_comm _ _ _
      _ ≤ 10 * (10 ^ k * e.smoothed.dist (e.limit v)) := Nat.mul_le_mul_left _ ih
      _ = 10 ^ (k + 1) * e.smoothed.dist (e.limit v) := by
        rw [Nat.pow_succ', Nat.mul_assoc]

/-- As long as something is left of the way, a sample takes at least a nanosecond of it. -/
theorem dist_repeated_le_sub (e : RttEstimator) (v k : Nat) :
    (e.repeated v k).smoothed.dist (e.limit v) ≤ e.smoothed.dist (e.limit v) - k := by
  induction k with
  | zero => exact Nat.le_refl _
  | succ k ih =>
    have step := dist_repeated_succ e v k
    omega

/-- How the smoothed time moves if all further samples are `v`. -/
structure ComesToRest (e : RttEstimator) (v : Nat) : Prop where
  rises (below : e.smoothed ≤ v) :
    Monotone (fun k => (e.repeated v k).smoothed) ∧ ∀ k, (e.repeated v k).smoothed ≤ v
  falls (above : v ≤ e.smoothed) :
    Antitone (fun k => (e.repeated v k).smoothed) ∧ ∀ k, v ≤ (e.repeated v k).smoothed
  /-- Each sample takes at least an eleventh of the way that is left. -/
  nearer (k : Nat) : 11 ^ k * (e.repeated v k).smoothed.dist (e.limit v) ≤
    10 ^ k * e.smoothed.dist (e.limit v)
  rests : ∃ n, ∀ k, n ≤ k → (e.repeated v k).smoothed = e.limit v
  arrives (reaching : v ≤ e.smoothed ∨ e.smoothed = 0) : e.limit v = v
  stops_short (started : 0 < e.smoothed) (below : e.smoothed < v) :
    e.limit v < v ∧ v ≤ e.limit v + 10

theorem comes_to_rest (e : RttEstimator) (v : Nat) : ComesToRest e v where
  rises := fun below => ⟨monotone_repeated below, repeated_le below⟩
  falls := fun above => ⟨antitone_repeated above, le_repeated above⟩
  nearer := dist_repeated_le e v
  rests := by
    refine ⟨e.smoothed.dist (e.limit v), fun k long => Nat.eq_of_dist_eq_zero ?_⟩
    have left := dist_repeated_le_sub e v k
    omega
  arrives := limit_of_not_below
  stops_short := by
    intro started below
    rw [limit_of_below started below]
    omega

/-- From below, ten nanoseconds are missing for ever. -/
example : (repeated { smoothed := 1 } 30 200).smoothed = 20 := by decide +kernel

end Repetition

end ReliableDatagram.RttEstimator
