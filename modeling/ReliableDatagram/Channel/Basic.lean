import ReliableDatagram.Channel.Receiver
import ReliableDatagram.Config
import ReliableDatagram.Effect
import ReliableDatagram.Logged
import ReliableDatagram.Packet.Codec
import ReliableDatagram.RateMeter
import ReliableDatagram.Rtt
import ReliableDatagram.SendQueue
import ReliableDatagram.Stats

/-!
# Channels

A channel is one logical connection to a peer. Data packets carry consecutive ids in each
direction, and the sender sends nothing after a stream start before that one is acknowledged. A
receiver without a stream answers other data with a request to start over.
-/

namespace ReliableDatagram

namespace Channel

inductive Phase
  /-- Packets did not go in both directions yet. -/
  | fresh
  | connected
  | closed
deriving DecidableEq

/-- A write that waits for room in the send queue. -/
structure ParkedWrite where
  ticket : Nat
  payload : Bytes
deriving DecidableEq

structure Sender where
  nextId : PacketId := .streamStart
  unacked : SendQueue
  parked : List ParkedWrite := []
deriving DecidableEq

structure Counters where
  packetsSent : Nat := 0
  bytesSent : Nat := 0
  packetsReceived : Nat := 0
  bytesReceived : Nat := 0
  acksReceived : Nat := 0
  /-- Data packets that were neither delivered nor kept. -/
  dropped : Nat := 0
  /-- Data packets that were sent again. -/
  repeated : Nat := 0
deriving DecidableEq

/-- What a channel needs to know besides its own state. -/
structure Context where
  now : Nat
  config : Config
  clock : Clock

def Context.timestamp (ctx : Context) : UInt32 := ctx.clock.timestamp ctx.now

end Channel

structure Channel where
  key : Key
  /-- Tells the channel from earlier ones with the same key. -/
  generation : Nat
  phase : Channel.Phase := .fresh
  sender : Channel.Sender
  receiver : Channel.Receiver := {}
  rtt : RttEstimator := {}
  hasSent : Bool := false
  hasReceived : Bool := false
  lastSent : Nat
  lastReceived : Nat
  meter : RateMeter
  counters : Channel.Counters := {}
deriving DecidableEq

namespace Channel

def create (key : Key) (generation : Nat) (config : Config) (now : Nat) : Channel where
  key := key
  generation := generation
  sender := { unacked := { limit := config.defaultQueueSize } }
  lastSent := now
  lastReceived := now
  meter := { windowStart := now }

def transmit (c : Channel) (ctx : Context) (packet : Packet) : Logged Effect Channel :=
  ⟨{ c with hasSent := true, lastSent := ctx.now }, [.send c.key.addr packet.encode]⟩

/-- A channel is connected as soon as it has both sent and received a packet. -/
def checkConnected (c : Channel) : Logged Effect Channel :=
  if c.phase = .fresh ∧ c.hasSent ∧ c.hasReceived then
    ⟨{ c with phase := .connected }, [.emit (.connected c.key)]⟩
  else pure c

def pingPayload : Bytes := [0x70, 0x69, 0x6e, 0x67]

def ping (c : Channel) (ctx : Context) : Logged Effect Channel := do
  let c ← c.transmit ctx (.ping c.key.channel ctx.timestamp pingPayload)
  c.checkConnected

def retransmitTimeout (c : Channel) (config : Config) : Nat :=
  c.rtt.retransmitTimeout config.maxRtt config.baseRetransmitMargin

def stats (c : Channel) : ChannelStats where
  packetsSent := c.counters.packetsSent
  bytesSent := c.counters.bytesSent
  packetsReceived := c.counters.packetsReceived
  bytesReceived := c.counters.bytesReceived
  acksReceived := c.counters.acksReceived
  dropped := c.counters.dropped
  repeated := c.counters.repeated
  lastRtt := c.rtt.last
  smoothedRtt := c.rtt.smoothed
  sendQueueLength := c.sender.unacked.length
  receiveQueueLength := c.receiver.early.length
  writeQueueLength := c.sender.parked.length
  maxQueueSize := c.sender.unacked.limit
  sendRate := c.meter.last.sent
  repeatRate := c.meter.last.repeated
  connected := c.phase = .connected

end Channel

end ReliableDatagram
