import ReliableDatagram.Clock
import ReliableDatagram.ReceiveQueue

/-!
# The receive direction of a channel

Where a data packet belongs depends on the receive direction alone, not on time or on what this
side sends. A stream start that carries the timestamp of the accepted one is a copy of it, and one
that carries another timestamp begins a new stream.
-/

namespace ReliableDatagram.Channel

/-- A request to the peer to start its stream over, until it is answered. -/
structure PendingReset where
  packet : Bytes
  deadline : Nat
  attempts : Nat := 0
deriving DecidableEq

structure Receiver where
  /-- The id to deliver next; the stream start while there is no stream. -/
  expected : PacketId := .streamStart
  /-- The peer's timestamp on the accepted stream start. -/
  startedAt : Option UInt32 := none
  early : ReceiveQueue := {}
  pendingReset : Option PendingReset := none
deriving DecidableEq

/-- Where a data packet belongs. -/
inductive Placement
  /-- The first stream start. -/
  | start
  /-- The start of another stream than the current one. -/
  | restart
  | repeatedStart
  /-- There is no stream yet. -/
  | unplaced
  /-- Stamped before the stream started. -/
  | stale
  | next
  /-- Ahead of the expected packet. -/
  | early
  /-- Ahead of the expected packet, and there already. -/
  | buffered
  | delivered
  | beyondWindow
deriving DecidableEq

namespace Receiver

def isStale (r : Receiver) (timestamp : UInt32) : Bool :=
  match r.startedAt with
  | none => false
  | some start => stampedBefore timestamp start

def place (r : Receiver) (window : Nat) (id : PacketId) (timestamp : UInt32) : Placement :=
  if id = .streamStart then
    if r.expected = .streamStart then .start
    else if r.startedAt = some timestamp then .repeatedStart
    else .restart
  else if r.expected = .streamStart then .unplaced
  else if r.isStale timestamp then .stale
  else
    let distance := r.expected.distanceTo id
    if distance = 0 then .next
    else if distance < 0 then .delivered
    else if distance > window then .beyondWindow
    else if r.early.contains id then .buffered
    else .early

/-- A stream start answers a pending reset. -/
def start (r : Receiver) (timestamp : UInt32) : Receiver :=
  { r with startedAt := some timestamp, pendingReset := none }

/-- Delivers a payload and all early ones that follow it without a gap. -/
def accept (r : Receiver) (id : PacketId) (payload : Bytes) : List Bytes × Receiver :=
  let (payloads, expected, early) := r.early.drain id.next
  (payload :: payloads, { r with expected, early })

def keep (r : Receiver) (id : PacketId) (payload : Bytes) : Receiver :=
  { r with early := r.early.insert id payload }

end Receiver

end ReliableDatagram.Channel
