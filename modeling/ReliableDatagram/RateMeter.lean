import ReliableDatagram.Time

/-!
# Send rates

Packets are counted in windows of at least one second. A window is closed when somebody asks, so
the counts are scaled to its actual length in whole milliseconds.
-/

namespace ReliableDatagram

/-- Packets per second. -/
structure Rates where
  sent : Nat := 0
  repeated : Nat := 0
deriving DecidableEq

structure RateMeter where
  windowStart : Nat
  sent : Nat := 0
  repeated : Nat := 0
  /-- The rates in the window that was closed last. -/
  last : Rates := {}
deriving DecidableEq

namespace RateMeter

def record (m : RateMeter) (sent repeated : Nat) : RateMeter :=
  { m with sent := m.sent + sent, repeated := m.repeated + repeated }

/-- Closes the window and opens the next one, once the window is complete. -/
def roll? (m : RateMeter) (now : Nat) : Option RateMeter :=
  let elapsed := now - m.windowStart
  if elapsed < second then none
  else
    let millis := elapsed / millisecond
    some {
      windowStart := now
      last := ⟨m.sent * 1000 / millis, m.repeated * 1000 / millis⟩ }

end RateMeter

end ReliableDatagram
