import ReliableDatagram.Event

/-!
# Effects

What a channel does to the outside world: it sends packets, reports events and answers writes.
Every write has a ticket, by which its answer is known.
-/

namespace ReliableDatagram

inductive Effect
  | send (target : SocketAddr) (packet : Bytes)
  /-- Another copy of a packet that was sent before. -/
  | resend (target : SocketAddr) (packet : Bytes)
  | emit (event : Event)
  /-- The answer to a write: the length of the payload once it is in the send queue. -/
  | reply (ticket : Nat) (result : Except TransportError Nat)

namespace Effect

def datagram? : Effect → Option (SocketAddr × Bytes)
  | send target packet | resend target packet => some (target, packet)
  | _ => none

def event? : Effect → Option Event
  | emit event => some event
  | _ => none

def reply? : Effect → Option (Nat × Except TransportError Nat)
  | reply ticket result => some (ticket, result)
  | _ => none

end Effect

end ReliableDatagram
