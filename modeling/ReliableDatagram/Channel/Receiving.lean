import ReliableDatagram.Channel.Sending

/-!
# Incoming packets of a channel

Data is acknowledged when it is delivered, kept or known already. A packet that is stale or beyond
the window is dropped without a word, so that its sender tries again.
-/

namespace ReliableDatagram.Channel

def countDropped (c : Channel) : Channel :=
  { c with counters.dropped := c.counters.dropped + 1 }

/-- Acknowledges and delivers the expected packet together with what it was waited for. -/
def accept (c : Channel) (ctx : Context) (p : Packet) : Logged Effect Channel := do
  let c ← c.transmit ctx p.ack
  let c ← c.checkConnected
  let (payloads, receiver) := c.receiver.accept p.header.id p.payload
  let counters := { c.counters with
    packetsReceived := c.counters.packetsReceived + payloads.length
    bytesReceived := c.counters.bytesReceived + totalLength payloads }
  ⟨{ c with receiver, counters }, payloads.map fun payload => .emit (.data c.key payload)⟩

def acceptStart (c : Channel) (ctx : Context) (p : Packet) : Logged Effect Channel :=
  { c with receiver := c.receiver.start p.header.timestamp }.accept ctx p

/-- Starts over in both directions. -/
def startOver (c : Channel) (ctx : Context) : Logged Effect Channel := do
  Logged.act (.emit (.resetLocal c.key))
  { c with sender := c.sender.startOver, receiver := {} }.flush ctx

/-- Asks the peer to start its stream over, unless it was asked already. -/
def requestReset (c : Channel) (ctx : Context) : Logged Effect Channel :=
  if c.receiver.pendingReset.isSome then pure c
  else do
    let packet := Packet.reset c.key.channel ctx.timestamp
    let pending : PendingReset :=
      { packet := packet.encode, deadline := ctx.now + c.retransmitTimeout ctx.config }
    let c ← { c with receiver.pendingReset := some pending }.transmit ctx packet
    Logged.act (.emit (.resetSent c.key))
    return c

def onData (c : Channel) (ctx : Context) (p : Packet) : Logged Effect Channel :=
  match c.receiver.place ctx.config.receiveWindow p.header.id p.header.timestamp with
  | .start => c.acceptStart ctx p
  | .restart => do (← c.startOver ctx).acceptStart ctx p
  | .unplaced => c.requestReset ctx
  | .next => c.accept ctx p
  | .early =>
    { c with receiver := c.receiver.keep p.header.id p.payload }.transmit ctx p.ack
  | .repeatedStart | .buffered | .delivered => c.countDropped.transmit ctx p.ack
  | .stale | .beyondWindow => pure c.countDropped

/-- The peer starts its stream over as it was asked to; an answer to no request is ignored. -/
def onAckReset (c : Channel) : Logged Effect Channel :=
  if c.receiver.pendingReset.isSome then
    ⟨{ c with receiver := {} }, [.emit (.resetLocal c.key)]⟩
  else pure c

def dispatch (c : Channel) (ctx : Context) (p : Packet) : Logged Effect Channel :=
  match p.header.kind with
  | .data => c.onData ctx p
  | .ack => c.onAck ctx p.header
  | .reset => c.onReset ctx p
  | .ackReset => c.onAckReset
  | .ping => c.transmit ctx p.ackPing
  | .ackPing => c.onAckPing ctx p.header

def onPacket (c : Channel) (ctx : Context) (p : Packet) : Logged Effect Channel := do
  let c ← { c with hasReceived := true, lastReceived := ctx.now }.dispatch ctx p
  c.checkConnected

end ReliableDatagram.Channel
