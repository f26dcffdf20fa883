import ReliableDatagram.Time

/-!
# The wire clock

Timestamps are milliseconds modulo `2 ^ 32`, so all comparisons between them wrap around.
-/

namespace ReliableDatagram

structure Clock where
  epoch : Nat
  /-- The timestamp at the epoch. -/
  base : UInt32
deriving DecidableEq

namespace Clock

/-- Before its epoch the clock stands still. -/
def timestamp (c : Clock) (now : Nat) : UInt32 :=
  c.base + UInt32.ofNat ((now - c.epoch) / millisecond)

/-- The time since this clock showed `timestamp`, in whole milliseconds. -/
def elapsedSince (c : Clock) (timestamp : UInt32) (now : Nat) : Nat :=
  (c.timestamp now - timestamp).toNat * millisecond

end Clock

/-- Whether a timestamp lies less than half the clock's range before another one. -/
def stampedBefore (earlier later : UInt32) : Bool :=
  let gap := (later - earlier).toNat
  decide (0 < gap ∧ gap < 0x80000000)

end ReliableDatagram
