import ReliableDatagram.Link.Basic

/-!
# Delivery in rounds

A round delivers all that the first side has in the air, and then all that the second side has,
replies included.
-/

namespace ReliableDatagram.Link

/-- Delivers a datagram, unless it is lost: that is the `n`-th of all that were ever carried if
`lossEvery` divides `n`. The first component is the number of those carried so far. -/
def carryOne (lossEvery : Nat) (e : End) (x : Nat × Link) (bytes : Bytes) :
    Logged (End × Effect) (Nat × Link) :=
  let carried := x.1 + 1
  if lossEvery ≠ 0 ∧ carried % lossEvery = 0 then pure (carried, x.2)
  else (carried, ·) <$> x.2.arrive e bytes

def carry (lossEvery : Nat) (e : End) :
    List Bytes → Nat × Link → Logged (End × Effect) (Nat × Link)
  | [], x => pure x
  | bytes :: rest, x => do carry lossEvery e rest (← carryOne lossEvery e x bytes)

/-- Carries everything that the side at `e` has in the air at this moment. -/
def carryAll (lossEvery : Nat) (e : End) (x : Nat × Link) : Logged (End × Effect) (Nat × Link) :=
  let s := x.2.side e
  carry lossEvery e s.flying (x.1, x.2.setSide e { s with flying := [] })

def round (lossEvery : Nat) (x : Nat × Link) : Logged (End × Effect) (Nat × Link) := do
  carryAll lossEvery .b (← carryAll lossEvery .a x)

def isQuiet (l : Link) : Bool := l.a.flying.isEmpty && l.b.flying.isEmpty

/-- Makes at most `limit` rounds without losses, until nothing flies. The first component is the
number of rounds. -/
def flush : Nat → Link → Logged (End × Effect) (Nat × Link)
  | 0, l => pure (0, l)
  | limit + 1, l =>
    if l.isQuiet then pure (0, l)
    else do
      let (_, l) ← round 0 (0, l)
      let (rounds, l) ← flush limit l
      return (rounds + 1, l)

/-- Time passes, and both sides tick. -/
def beat (l : Link) (step : Nat) : Logged (End × Effect) Link := do
  let (_, l) ← (l.pass step).perform .a .tick
  let (_, l) ← l.perform .b .tick
  return l

end ReliableDatagram.Link
