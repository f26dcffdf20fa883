import ReliableDatagram.Channel.Sending

/-!
# Upkeep of a channel

Regular ticks send unacknowledged packets again, keep the connection alive, give up on a silent
peer and fit the limit of the send queue to the traffic.
-/

namespace ReliableDatagram.Channel

/-- Sends expired packets again, up to the first one that may not be sent again. Only a complete
pass is counted. The second component tells whether the pass ended early. -/
def resendData (c : Channel) (ctx : Context) (deadline : Nat) : Logged Effect (Channel × Bool) :=
  let budget := ctx.config.maxResendAttempts
  let live := c.sender.unacked.live ctx.now budget
  let spent := c.sender.unacked.spent ctx.now budget
  let due := live.filter (SendQueue.Entry.isExpired ctx.now)
  let entries := SendQueue.resendExpired ctx.now deadline live ++ spent
  let c := { c with sender.unacked.entries := entries }
  let c :=
    if due.isEmpty || !spent.isEmpty then c
    else
      { c with
        counters.repeated := c.counters.repeated + due.length
        meter := c.meter.record 0 due.length
        lastSent := ctx.now }
  ⟨(c, !spent.isEmpty), due.map fun e => .resend c.key.addr e.packet⟩

/-- Sends an expired request to start over again. The second component tells whether it may not be
sent again. -/
def resendReset (c : Channel) (ctx : Context) (deadline : Nat) : Logged Effect (Channel × Bool) :=
  match c.receiver.pendingReset with
  | none => pure (c, false)
  | some r =>
    if ctx.now < r.deadline then pure (c, false)
    else if ctx.config.maxResendAttempts ≤ r.attempts then pure (c, true)
    else
      let pending := { r with deadline, attempts := r.attempts + 1 }
      ⟨({ c with
          receiver.pendingReset := some pending
          hasSent := true
          lastSent := ctx.now }, false),
        [.resend c.key.addr r.packet]⟩

def keepAlive (c : Channel) (ctx : Context) : Logged Effect Channel :=
  if ctx.config.keepAliveInterval ≤ ctx.now - c.lastSent then c.ping ctx else pure c

/-- The limit grows for a fast sender whose packets all arrive the first time, and shrinks when
many packets are sent again. -/
def tune (c : Channel) (config : Config) (rates : Rates) : Channel :=
  let limit := c.sender.unacked.limit
  let isFull := c.sender.unacked.isFull
  if rates.sent ≤ 30 then c
  else if limit < config.maxQueueSize ∧ rates.repeated = 0 ∧ isFull then
    { c with sender.unacked.limit := min (limit + 8) config.maxQueueSize }
  else if config.defaultQueueSize < limit ∧
      (20 < rates.repeated ∨ 10 < rates.repeated ∧ isFull) then
    { c with sender.unacked.limit := max (limit - 8) config.defaultQueueSize }
  else c

/-- Closes a complete rate window and tunes the send queue by it. -/
def closeWindow (c : Channel) (ctx : Context) : Logged Effect Channel :=
  match c.meter.roll? ctx.now with
  | none => pure c
  | some meter =>
    let c := { c with meter }
    if ctx.config.autoTuneQueueSize then (c.tune ctx.config meter.last).flush ctx else pure c

/-- The second component is the reason to destroy the channel, if there is one. -/
def tick (c : Channel) (ctx : Context) : Logged Effect (Channel × Option DisconnectReason) :=
  if ctx.config.disconnectTimeout ≤ ctx.now - c.lastReceived then pure (c, some .timeout)
  else do
    let deadline := ctx.now + c.retransmitTimeout ctx.config
    let (c, exhausted) ← c.resendData ctx deadline
    if exhausted then return (c, some .resendExhausted)
    else
      let (c, exhausted) ← c.resendReset ctx deadline
      if exhausted then return (c, some .resetExhausted)
      else
        let c ← c.keepAlive ctx
        let c ← c.closeWindow ctx
        return (c, none)

/-- Fails all parked writes and reports the end of a connected channel. -/
def destroy (c : Channel) (reason : DisconnectReason) : Logged Effect Channel where
  value := { c with
    phase := .closed
    sender.unacked := c.sender.unacked.clear
    sender.parked := []
    receiver.early := {}
    receiver.pendingReset := none }
  log :=
    (c.sender.parked.map fun w => .reply w.ticket (.error (.connectionClosed c.key))) ++
      if c.phase = .connected then [.emit (.disconnected c.key reason)] else []

end ReliableDatagram.Channel
