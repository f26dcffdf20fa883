import ReliableDatagram.Address.Text
import ReliableDatagram.Packet.Basic
import ReliableDatagram.Time

/-!
# Configuration

One configuration holds for all channels of an end point. Durations are in nanoseconds.
-/

namespace ReliableDatagram

/-- What to do when the configured local port is in use. -/
inductive PortPolicy
  | increment
  | fixed
deriving DecidableEq

structure Config where
  bindAddr : SocketAddr := ⟨.v4 0, 0⟩
  portPolicy : PortPolicy := .increment
  /-- How many ports are tried in all. -/
  maxPortAttempts : Nat := 100
  /-- The initial limit of every send queue, and the least that tuning leaves. -/
  defaultQueueSize : Nat := 16
  /-- The most that tuning raises the limit of a send queue to. -/
  maxQueueSize : Nat := 1024
  autoTuneQueueSize : Bool := true
  /-- How many writes a channel parks while its send queue takes no more. -/
  maxWriteQueue : Nat := 1024
  /-- How far ahead of the expected id a packet is kept. -/
  receiveWindow : Nat := 1024
  keepAliveInterval : Nat := second
  disconnectTimeout : Nat := 3 * second
  baseRetransmitMargin : Nat := 30 * millisecond
  maxRtt : Nat := 500 * millisecond
  maxResendAttempts : Nat := 50
  tickInterval : Nat := 10 * millisecond
  maxDatagramSize : Nat := 2048
  inboundQueueSize : Nat := 1024
  ackPingEvents : Bool := false
deriving DecidableEq

inductive ConfigError
  | noPayloadRoom (maxDatagramSize : Nat)
  | zeroDefaultQueueSize
  | queueSizes (max default : Nat)
  | receiveWindow (window : Nat)
  | zeroPortAttempts
  | zeroTickInterval
  | zeroInboundQueueSize
  | keepAlive (disconnectTimeout keepAliveInterval : Nat)
deriving DecidableEq

def ConfigError.message : ConfigError → String
  | noPayloadRoom size => s!"max datagram size {size} does not leave room for a payload"
  | zeroDefaultQueueSize => "default queue size must be positive"
  | queueSizes max default =>
    s!"max queue size {max} is smaller than the default queue size {default}"
  | receiveWindow window => s!"receive window {window} is out of range"
  | zeroPortAttempts => "max port attempts must be positive"
  | zeroTickInterval => "tick interval must be positive"
  | zeroInboundQueueSize => "inbound queue size must be positive"
  | keepAlive timeout interval =>
    s!"disconnect timeout {Duration.toText timeout} must be longer than the keep-alive interval " ++
      Duration.toText interval

namespace Config

/-- A quarter of the id range, so that early and late packets stay apart. -/
def maxReceiveWindow : Nat := 0xffffffff / 4

/-- The room for a payload beside the header, as far as the length field reaches; a datagram size
below the header's leaves none. -/
def payloadRoom? (c : Config) : Option Nat :=
  if c.maxDatagramSize < Packet.Header.size then none
  else some (min (c.maxDatagramSize - Packet.Header.size) 0xffff)

def maxPayloadLength (c : Config) : Nat := c.payloadRoom?.getD 0

def validate (c : Config) : Except ConfigError Unit :=
  if c.maxDatagramSize ≤ Packet.Header.size then .error (.noPayloadRoom c.maxDatagramSize)
  else if c.defaultQueueSize = 0 then .error .zeroDefaultQueueSize
  else if c.maxQueueSize < c.defaultQueueSize then
    .error (.queueSizes c.maxQueueSize c.defaultQueueSize)
  else if c.receiveWindow = 0 ∨ c.receiveWindow > maxReceiveWindow then
    .error (.receiveWindow c.receiveWindow)
  else if c.maxPortAttempts = 0 then .error .zeroPortAttempts
  else if c.tickInterval = 0 then .error .zeroTickInterval
  else if c.inboundQueueSize = 0 then .error .zeroInboundQueueSize
  else if c.disconnectTimeout ≤ c.keepAliveInterval then
    .error (.keepAlive c.disconnectTimeout c.keepAliveInterval)
  else .ok ()

end Config

end ReliableDatagram
