import ReliableDatagram.Address.Text
import ReliableDatagram.Bytes

/-!
# Events and errors

Events are what an end point reports to its application on its own account; errors are the answers
to calls that fail.
-/

namespace ReliableDatagram

inductive DisconnectReason
  | closed
  | timeout
  | resendExhausted
  | resetExhausted
  | endPointShutdown
  | socketFailure
deriving DecidableEq

def DisconnectReason.message : DisconnectReason → String
  | closed => "closed"
  | timeout => "timeout"
  | resendExhausted => "resend attempts exhausted"
  | resetExhausted => "reset attempts exhausted"
  | endPointShutdown => "end point shutdown"
  | socketFailure => "socket failure"

inductive Event
  | initialized (localAddr : SocketAddr)
  /-- Packets went in both directions. -/
  | connected (key : Key)
  /-- A connected channel was destroyed. -/
  | disconnected (key : Key) (reason : DisconnectReason)
  | data (key : Key) (payload : Bytes)
  /-- A direction of the channel starts over. -/
  | resetLocal (key : Key)
  /-- The peer was asked to start its stream over. -/
  | resetSent (key : Key)
  | gotAckPing (key : Key) (rtt : Nat)
  | terminated (error : Option String)
deriving DecidableEq

def Event.key? : Event → Option Key
  | initialized _ | terminated _ => none
  | connected key | disconnected key _ | data key _ | resetLocal key | resetSent key
  | gotAckPing key _ => some key

inductive TransportError
  | connectionClosed (key : Key)
  | queueFull (key : Key)
  | invalidChannel (channel : UInt8)
  | payloadTooLarge (length max : Nat)
  | endPointClosed
  | unresolved (host : String)
deriving DecidableEq

def TransportError.message : TransportError → String
  | connectionClosed key => s!"connection {key.toText} is closed"
  | queueFull key => s!"send and write queues of connection {key.toText} are full"
  | invalidChannel channel => s!"channel number {channel.toNat} is out of range"
  | payloadTooLarge length max =>
    s!"payload of {length} bytes exceeds the maximum of {max} bytes"
  | endPointClosed => "end point is shut down"
  | unresolved host => s!"could not resolve {host}"

end ReliableDatagram
