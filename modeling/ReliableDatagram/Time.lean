/-!
# Time

Instants and durations are natural numbers of nanoseconds, instants counted from an arbitrary
origin. A duration is written in the largest unit in which it is at least one, with a decimal
fraction that ends in no zero.
-/

namespace ReliableDatagram

def microsecond : Nat := 1000

def millisecond : Nat := 1000000

def second : Nat := 1000000000

namespace Duration

/-- The digits of `n` after a decimal point, filled up to `places` with leading zeros and then freed
of trailing ones. -/
def fraction (places n : Nat) : List Char :=
  let digits := Nat.toDigits 10 n
  let padded := List.replicate (places - digits.length) '0' ++ digits
  (padded.reverse.dropWhile (· == '0')).reverse

/-- A number of nanoseconds in a unit of `size` nanoseconds, a one with `places` zeros. -/
def inUnit (size places : Nat) (unit : String) (n : Nat) : String :=
  let whole := toString (n / size)
  if n % size = 0 then whole ++ unit
  else whole ++ "." ++ String.ofList (fraction places (n % size)) ++ unit

def toText (n : Nat) : String :=
  if n ≥ second then inUnit second 9 "s" n
  else if n ≥ millisecond then inUnit millisecond 6 "ms" n
  else if n ≥ microsecond then inUnit microsecond 3 "µs" n
  else inUnit 1 0 "ns" n

end Duration

end ReliableDatagram
