import ReliableDatagram.Table.Run

/-!
# Links

A link joins two tables by a network that keeps what it was given until it is told what to do with
it. Datagrams can be delivered in any order, delivered more than once, and lost.
-/

namespace ReliableDatagram

namespace Link

inductive End
  | a
  | b
deriving DecidableEq

def End.other : End → End
  | a => b
  | b => a

structure Side where
  addr : SocketAddr
  table : Table
  /-- The datagrams on their way to the other side, oldest first. -/
  flying : List Bytes := []

end Link

structure Link where
  a : Link.Side
  b : Link.Side
  now : Nat := 0

namespace Link

def side (l : Link) : End → Side
  | .a => l.a
  | .b => l.b

def setSide (l : Link) (e : End) (s : Side) : Link :=
  match e with
  | .a => { l with a := s }
  | .b => { l with b := s }

/-- The key under which the side at `e` knows the other side's channel. -/
def key (l : Link) (e : End) (channel : UInt8) : Key := ⟨(l.side e.other).addr, channel⟩

/-- Lets time pass. -/
def pass (l : Link) (duration : Nat) : Link := { l with now := l.now + duration }

/-- Takes over what a side's table did; the datagrams that it sent start to fly. -/
def launch {α : Type} (l : Link) (e : End) (x : Logged Effect (α × Table)) :
    Logged (End × Effect) (α × Link) :=
  let s := l.side e
  let flying := s.flying ++ (x.log.filterMap Effect.datagram?).map Prod.snd
  ⟨(x.value.1, l.setSide e { s with table := x.value.2, flying }), x.log.map (e, ·)⟩

def perform (l : Link) (e : End) (r : Table.Request) :
    Logged (End × Effect) (Table.Answer × Link) :=
  l.launch e ((l.side e).table.perform l.now r)

/-- A datagram of the side at `e` reaches the other side. -/
def arrive (l : Link) (e : End) (bytes : Bytes) : Logged (End × Effect) Link :=
  Prod.snd <$> l.perform e.other (.datagram (l.side e).addr bytes)

/-- Takes a datagram out of the air. The first component tells whether it was there. -/
def lose (l : Link) (e : End) (i : Nat) : Bool × Link :=
  let s := l.side e
  (decide (i < s.flying.length), l.setSide e { s with flying := s.flying.eraseIdx i })

/-- Delivers a datagram that goes on flying. The first component tells whether it was there. -/
def copy (l : Link) (e : End) (i : Nat) : Logged (End × Effect) (Bool × Link) :=
  match (l.side e).flying[i]? with
  | none => pure (false, l)
  | some bytes => (true, ·) <$> l.arrive e bytes

def deliver (l : Link) (e : End) (i : Nat) : Logged (End × Effect) (Bool × Link) :=
  match (l.side e).flying[i]? with
  | none => pure (false, l)
  | some bytes => (true, ·) <$> (l.lose e i).2.arrive e bytes

/-- Begins again with an empty table, whose clock shows `base` now. The first component has the
tickets of the writes that nobody answers any more. -/
def restart (l : Link) (e : End) (base : UInt32) : List Nat × Link :=
  let s := l.side e
  (s.table.parkedTickets,
    l.setSide e { s with table := { config := s.table.config, clock := ⟨l.now, base⟩ } })

end Link

end ReliableDatagram
