import ReliableDatagram.Bytes
import ReliableDatagram.PacketId

/-!
# Unacknowledged packets

The queue holds data packets in the order of their first transmission. A lowered limit evicts
nothing: it only keeps new packets out.
-/

namespace ReliableDatagram

structure SendQueue.Entry where
  id : PacketId
  packet : Bytes
  /-- When to send the packet again. -/
  deadline : Nat
  /-- How often the packet was sent again. -/
  attempts : Nat := 0
deriving DecidableEq

structure SendQueue where
  entries : List SendQueue.Entry := []
  limit : Nat
deriving DecidableEq

namespace SendQueue

def Entry.isExpired (now : Nat) (e : Entry) : Bool := decide (e.deadline ≤ now)

/-- An expired packet that may not be sent again. -/
def Entry.isSpent (now budget : Nat) (e : Entry) : Bool :=
  e.isExpired now && decide (budget ≤ e.attempts)

def Entry.resend (deadline : Nat) (e : Entry) : Entry :=
  { e with deadline, attempts := e.attempts + 1 }

def length (q : SendQueue) : Nat := q.entries.length

def isEmpty (q : SendQueue) : Bool := q.entries.isEmpty

def isFull (q : SendQueue) : Bool := decide (q.limit ≤ q.length)

def contains (q : SendQueue) (id : PacketId) : Bool := q.entries.any (·.id == id)

def push (q : SendQueue) (e : Entry) : SendQueue := { q with entries := q.entries ++ [e] }

/-- Takes out the first packet with this id. -/
def remove? (q : SendQueue) (id : PacketId) : Option (Entry × SendQueue) :=
  (q.entries.find? (·.id == id)).map fun e =>
    (e, { q with entries := q.entries.eraseP (·.id == id) })

def clear (q : SendQueue) : SendQueue := { q with entries := [] }

def expired (q : SendQueue) (now : Nat) : List Entry := q.entries.filter (Entry.isExpired now)

/-- Gives each expired packet a new deadline and one more attempt. -/
def resendExpired (now deadline : Nat) (entries : List Entry) : List Entry :=
  entries.map fun e => if e.isExpired now then e.resend deadline else e

/-- The packets in front of the first spent one. -/
def live (q : SendQueue) (now budget : Nat) : List Entry :=
  q.entries.takeWhile fun e => !e.isSpent now budget

/-- The first spent packet and all behind it. -/
def spent (q : SendQueue) (now budget : Nat) : List Entry :=
  q.entries.dropWhile fun e => !e.isSpent now budget

theorem live_append_spent (q : SendQueue) (now budget : Nat) :
    q.live now budget ++ q.spent now budget = q.entries := List.takeWhile_append_dropWhile

end SendQueue

end ReliableDatagram
