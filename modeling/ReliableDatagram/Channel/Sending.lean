import ReliableDatagram.Channel.Basic

/-!
# The send direction of a channel

A write is sent at once if the send queue takes it and no earlier write waits, and it is parked
otherwise. It is answered when its packet enters the send queue.
-/

namespace ReliableDatagram.Channel

namespace Sender

/-- Nothing follows a stream start before that one is acknowledged. -/
def canSend (s : Sender) : Bool :=
  !s.unacked.isFull && !s.unacked.contains .streamStart

/-- The next packet starts a new stream. -/
def startOver (s : Sender) : Sender :=
  { s with nextId := .streamStart, unacked := s.unacked.clear }

end Sender

def sendData (c : Channel) (ctx : Context) (payload : Bytes) : Logged Effect Channel :=
  let id := c.sender.nextId
  let packet := Packet.data c.key.channel id ctx.timestamp payload
  let entry : SendQueue.Entry :=
    { id, packet := packet.encode, deadline := ctx.now + c.retransmitTimeout ctx.config }
  let sender := { c.sender with nextId := id.next, unacked := c.sender.unacked.push entry }
  let counters := { c.counters with
    packetsSent := c.counters.packetsSent + 1
    bytesSent := c.counters.bytesSent + payload.length }
  { c with sender, counters, meter := c.meter.record 1 0 }.transmit ctx packet

/-- Sends a write and answers it. -/
def sendWrite (c : Channel) (ctx : Context) (w : ParkedWrite) : Logged Effect Channel := do
  let c ← c.sendData ctx w.payload
  Logged.act (.reply w.ticket (.ok w.payload.length))
  return c

/-- Sends the given writes as far as the send queue takes them and parks the rest. -/
def release (ctx : Context) : List ParkedWrite → Channel → Logged Effect Channel
  | [], c => pure { c with sender.parked := [] }
  | w :: ws, c =>
    if c.sender.canSend then do release ctx ws (← c.sendWrite ctx w)
    else pure { c with sender.parked := w :: ws }

/-- Sends parked writes while there is room for them. -/
def flush (c : Channel) (ctx : Context) : Logged Effect Channel :=
  release ctx c.sender.parked c

/-- Sends a write, parks it or turns it away. -/
def sendOrPark (c : Channel) (ctx : Context) (w : ParkedWrite) : Logged Effect Channel :=
  if c.sender.parked.isEmpty && c.sender.canSend then c.sendWrite ctx w
  else if c.sender.parked.length < ctx.config.maxWriteQueue then
    pure { c with sender.parked := c.sender.parked ++ [w] }
  else ⟨c, [.reply w.ticket (.error (.queueFull c.key))]⟩

def write (c : Channel) (ctx : Context) (w : ParkedWrite) : Logged Effect Channel :=
  if c.phase = .closed then
    ⟨c, [.reply w.ticket (.error (.connectionClosed c.key))]⟩
  else do
    let c ← c.sendOrPark ctx w
    c.checkConnected

/-- An acknowledgement of a packet that was sent once tells the round trip time; after a resend it
is open which copy was acknowledged. -/
def onAck (c : Channel) (ctx : Context) (header : Packet.Header) : Logged Effect Channel :=
  let c := { c with counters.acksReceived := c.counters.acksReceived + 1 }
  match c.sender.unacked.remove? header.id with
  | none => pure c
  | some (entry, unacked) =>
    let rtt :=
      if entry.attempts = 0 then
        c.rtt.onSample (ctx.clock.elapsedSince header.timestamp ctx.now)
      else c.rtt
    { c with sender.unacked := unacked, rtt }.flush ctx

def onAckPing (c : Channel) (ctx : Context) (header : Packet.Header) : Logged Effect Channel :=
  let rtt := ctx.clock.elapsedSince header.timestamp ctx.now
  ⟨{ c with rtt := c.rtt.onSample rtt },
    if ctx.config.ackPingEvents then [.emit (.gotAckPing c.key rtt)] else []⟩

/-- The peer lost track of this stream: start it over. -/
def onReset (c : Channel) (ctx : Context) (p : Packet) : Logged Effect Channel := do
  let c ← c.transmit ctx p.ackReset
  Logged.act (.emit (.resetLocal c.key))
  { c with sender := c.sender.startOver }.flush ctx

end ReliableDatagram.Channel
