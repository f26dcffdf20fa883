import ReliableDatagram.Clock

/-!
# Order of timestamps

A timestamp is a reading of a clock that never wraps, cut down to 32 bits. The comparison of
timestamps agrees with the order of the readings as long as these lie within half the range.
-/

namespace ReliableDatagram

/-- Half the range of the timestamps. -/
def stampRange : Nat := 0x80000000

theorem not_stampedBefore_ofNat {early late : Nat} (order : early ≤ late)
    (near : late ≤ early + stampRange) :
    stampedBefore (UInt32.ofNat late) (UInt32.ofNat early) = false := by
  simp only [stampRange] at near
  simp only [stampedBefore, UInt32.toNat_sub, UInt32.toNat_ofNat', decide_eq_false_iff_not]
  omega

theorem stampedBefore_ofNat {early late : Nat} (order : early < late)
    (near : late < early + stampRange) :
    stampedBefore (UInt32.ofNat early) (UInt32.ofNat late) = true := by
  simp only [stampRange] at near
  simp only [stampedBefore, UInt32.toNat_sub, UInt32.toNat_ofNat', decide_eq_true_eq]
  omega

/-- A stamp that is not earlier counts as earlier if it is more than half the range ahead, up to
whole rounds of the clock. -/
theorem stampedBefore_ofNat_iff {early late : Nat} (order : early ≤ late) :
    stampedBefore (UInt32.ofNat late) (UInt32.ofNat early) = true ↔
      stampRange < (late - early) % (2 * stampRange) := by
  simp only [stampRange, stampedBefore, UInt32.toNat_sub, UInt32.toNat_ofNat', decide_eq_true_eq]
  omega

namespace Clock

/-- What the clock would show if its timestamps never wrapped. -/
def reading (c : Clock) (now : Nat) : Nat := c.base.toNat + (now - c.epoch) / millisecond

theorem timestamp_eq_reading (c : Clock) (now : Nat) :
    c.timestamp now = UInt32.ofNat (c.reading now) := by
  apply UInt32.toNat_inj.mp
  simp only [timestamp, reading, UInt32.toNat_add, UInt32.toNat_ofNat']
  omega

theorem reading_mono (c : Clock) {s t : Nat} (order : s ≤ t) : c.reading s ≤ c.reading t :=
  Nat.add_le_add_left (Nat.div_le_div_right (by omega)) _

theorem reading_le (c : Clock) {s t range : Nat} (near : t < s + range * millisecond) :
    c.reading t ≤ c.reading s + range := by
  simp only [reading, millisecond] at near ⊢
  omega

theorem not_stampedBefore_timestamp (c : Clock) {s t : Nat} (order : s ≤ t)
    (near : t < s + stampRange * millisecond) :
    stampedBefore (c.timestamp t) (c.timestamp s) = false := by
  rw [timestamp_eq_reading, timestamp_eq_reading]
  exact not_stampedBefore_ofNat (c.reading_mono order) (c.reading_le near)

theorem stampedBefore_timestamp_iff (c : Clock) {s t : Nat} (order : s ≤ t) :
    stampedBefore (c.timestamp t) (c.timestamp s) = true ↔
      stampRange < (c.reading t - c.reading s) % (2 * stampRange) := by
  rw [timestamp_eq_reading, timestamp_eq_reading]
  exact stampedBefore_ofNat_iff (c.reading_mono order)

theorem elapsedSince_timestamp (c : Clock) {s t : Nat} (order : s ≤ t)
    (near : t < s + stampRange * millisecond) :
    c.elapsedSince (c.timestamp s) t = (c.reading t - c.reading s) * millisecond := by
  have later := c.reading_mono order
  have close := c.reading_le near
  simp only [stampRange] at close
  rw [elapsedSince, timestamp_eq_reading, timestamp_eq_reading, UInt32.toNat_sub,
    UInt32.toNat_ofNat', UInt32.toNat_ofNat']
  congr 1
  omega

/-- Within half the range, equal timestamps are equal readings. -/
theorem reading_eq_of_timestamp (c : Clock) {s t : Nat} (order : s ≤ t)
    (near : t < s + stampRange * millisecond) (same : c.timestamp s = c.timestamp t) :
    c.reading s = c.reading t := by
  have later := c.reading_mono order
  have close := c.reading_le near
  simp only [stampRange] at close
  rw [timestamp_eq_reading, timestamp_eq_reading] at same
  have same := congrArg UInt32.toNat same
  rw [UInt32.toNat_ofNat', UInt32.toNat_ofNat'] at same
  omega

/-- Cutting both readings down to whole milliseconds adds less than one to the time between them. -/
theorem reading_sub_lt (c : Clock) (s t : Nat) :
    (c.reading t - c.reading s) * millisecond < t - s + millisecond := by
  simp only [reading, millisecond]
  omega

/-- What the clock shows now without wrapping, if it shows `base` at its epoch. -/
def mark (c : Clock) (base now : Nat) : Nat := base + (now - c.epoch) / millisecond

/-- The clock shows `base` at its epoch, up to wrapping, and from now on it is not ahead of one that
shows `low` at the start. -/
structure Ticks (c : Clock) (low start now base : Nat) : Prop where
  begins : c.base = UInt32.ofNat base
  slow : ∀ t, now ≤ t → c.mark base t ≤ low + (t - start) / millisecond + 1

theorem ticks_start (c : Clock) (start : Nat) :
    c.Ticks (c.reading start) start start c.base.toNat := by
  constructor
  · exact UInt32.ofNat_toNat.symm
  · intro t late
    simp only [mark, reading, millisecond]
    omega

theorem mark_mono (c : Clock) (base : Nat) {s t : Nat} (order : s ≤ t) :
    c.mark base s ≤ c.mark base t :=
  Nat.add_le_add_left (Nat.div_le_div_right (by omega)) _

namespace Ticks

variable {c : Clock} {low start now base : Nat}

theorem timestamp (ticks : c.Ticks low start now base) (t : Nat) :
    c.timestamp t = UInt32.ofNat (c.mark base t) := by
  rw [Clock.timestamp, ticks.begins, mark, UInt32.ofNat_add]

theorem later (ticks : c.Ticks low start now base) {now' : Nat} (order : now ≤ now') :
    c.Ticks low start now' base :=
  ⟨ticks.begins, fun t late => ticks.slow t (Nat.le_trans order late)⟩

/-- A clock that goes on where another one stands is not ahead of it later. -/
theorem restart (ticks : c.Ticks low start now base) (order : start ≤ now) :
    (⟨now, c.timestamp now⟩ : Clock).Ticks low start now (c.mark base now) := by
  constructor
  · exact ticks.timestamp now
  · intro t late
    have slow := ticks.slow now (Nat.le_refl now)
    have passed : (now - start) / millisecond + (t - now) / millisecond ≤
        (t - start) / millisecond := by
      simp only [millisecond]
      omega
    show c.mark base now + (t - now) / millisecond ≤ _
    omega

end Ticks

end Clock

end ReliableDatagram
