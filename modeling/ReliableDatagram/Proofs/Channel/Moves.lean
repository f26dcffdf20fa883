import ReliableDatagram.Channel.Run

/-!
# Moves of a channel

Every operation of a channel is a chain of a few kinds of moves. An invariant that each kind of
move preserves therefore holds after every operation.
-/

namespace ReliableDatagram.Channel

/-- The packets that neither carry nor acknowledge data: answers to requests, and own pings. -/
inductive Says (c : Channel) (ctx : Context) : Op → Packet → Prop
  | ackReset {p : Packet} (kind : p.header.kind = .reset) : Says c ctx (.packet p) p.ackReset
  | ackPing {p : Packet} (kind : p.header.kind = .ping) : Says c ctx (.packet p) p.ackPing
  | ping {op : Op} (own : op = .ping ∨ op = .tick) :
      Says c ctx op (.ping c.key.channel ctx.timestamp pingPayload)

def placeOf (c : Channel) (ctx : Context) (p : Packet) : Placement :=
  c.receiver.place ctx.config.receiveWindow p.header.id p.header.timestamp

def withParked (c : Channel) (ws : List ParkedWrite) : Channel := { c with sender.parked := ws }

/-- One move on the occasion of an operation, with what it logs and the writes that it takes in. -/
inductive Move (ctx : Context) :
    Op → Channel → List Effect → List ParkedWrite → Channel → Prop
  | hear {p : Packet} {c : Channel} :
      Move ctx (.packet p) c [] [] { c with hasReceived := true, lastReceived := ctx.now }
  | connect {op : Op} {c : Channel} (ready : c.phase = .fresh ∧ c.hasSent ∧ c.hasReceived) :
      Move ctx op c [.emit (.connected c.key)] [] { c with phase := .connected }
  | say {op : Op} {c : Channel} {q : Packet} (speech : Says c ctx op q) :
      Move ctx op c (c.transmit ctx q).log [] (c.transmit ctx q).value
  | park {w : ParkedWrite} {c : Channel}
      (room : c.sender.parked = [] ∧ c.sender.canSend = true ∨
        c.sender.parked.length < ctx.config.maxWriteQueue) :
      Move ctx (.write w) c [] [w] (c.withParked (c.sender.parked ++ [w]))
  | refuse {w : ParkedWrite} {c : Channel} {error : TransportError} :
      Move ctx (.write w) c [.reply w.ticket (.error error)] [] c
  | send {op : Op} {c : Channel} {w : ParkedWrite} {rest : List ParkedWrite}
      (first : c.sender.parked = w :: rest) (room : c.sender.canSend = true) :
      Move ctx op c ((c.withParked rest).sendWrite ctx w).log []
        ((c.withParked rest).sendWrite ctx w).value
  | settle {p : Packet} {c : Channel} {entry : SendQueue.Entry} {unacked : SendQueue}
      {rtt : RttEstimator} (kind : p.header.kind = .ack)
      (found : c.sender.unacked.remove? p.header.id = some (entry, unacked))
      (sampled : rtt = if entry.attempts = 0 then
        c.rtt.onSample (ctx.clock.elapsedSince p.header.timestamp ctx.now) else c.rtt) :
      Move ctx (.packet p) c [] []
        { c with counters.acksReceived := c.counters.acksReceived + 1,
                 sender.unacked := unacked, rtt }
  | strayAck {p : Packet} {c : Channel} (kind : p.header.kind = .ack)
      (lost : c.sender.unacked.remove? p.header.id = none) :
      Move ctx (.packet p) c [] []
        { c with counters.acksReceived := c.counters.acksReceived + 1 }
  | measure {p : Packet} {c : Channel} (kind : p.header.kind = .ackPing) :
      Move ctx (.packet p) c (c.onAckPing ctx p.header).log []
        (c.onAckPing ctx p.header).value
  | startOver {p : Packet} {c : Channel} (kind : p.header.kind = .reset) :
      Move ctx (.packet p) c [.emit (.resetLocal c.key)] []
        { c with sender := c.sender.startOver }
  | accept {p : Packet} {c : Channel} (kind : p.header.kind = .data)
      (place : c.placeOf ctx p = .next) :
      Move ctx (.packet p) c (c.accept ctx p).log [] (c.accept ctx p).value
  | acceptStart {p : Packet} {c : Channel} (kind : p.header.kind = .data)
      (place : c.placeOf ctx p = .start) :
      Move ctx (.packet p) c (c.acceptStart ctx p).log [] (c.acceptStart ctx p).value
  | restart {p : Packet} {c : Channel} (kind : p.header.kind = .data)
      (place : c.placeOf ctx p = .restart) :
      Move ctx (.packet p) c [.emit (.resetLocal c.key)] []
        { c with sender := c.sender.startOver, receiver := {} }
  | confirm {p : Packet} {c : Channel} (kind : p.header.kind = .data)
      (place : c.placeOf ctx p = .repeatedStart ∨ c.placeOf ctx p = .buffered ∨
        c.placeOf ctx p = .delivered) :
      Move ctx (.packet p) c (c.countDropped.transmit ctx p.ack).log []
        (c.countDropped.transmit ctx p.ack).value
  | keep {p : Packet} {c : Channel} (kind : p.header.kind = .data)
      (place : c.placeOf ctx p = .early) :
      Move ctx (.packet p) c
        ({ c with receiver := c.receiver.keep p.header.id p.payload }.transmit ctx p.ack).log []
        ({ c with receiver := c.receiver.keep p.header.id p.payload }.transmit ctx p.ack).value
  | drop {p : Packet} {c : Channel} (kind : p.header.kind = .data)
      (place : c.placeOf ctx p = .stale ∨ c.placeOf ctx p = .beyondWindow) :
      Move ctx (.packet p) c [] [] c.countDropped
  | requestReset {p : Packet} {c : Channel} (kind : p.header.kind = .data)
      (place : c.placeOf ctx p = .unplaced) (idle : c.receiver.pendingReset = none) :
      Move ctx (.packet p) c (c.requestReset ctx).log [] (c.requestReset ctx).value
  | resetAnswered {p : Packet} {c : Channel} (kind : p.header.kind = .ackReset)
      (pending : c.receiver.pendingReset.isSome) :
      Move ctx (.packet p) c [.emit (.resetLocal c.key)] [] { c with receiver := {} }
  | resendData {c : Channel} :
      Move ctx .tick c
        (c.resendData ctx (ctx.now + c.retransmitTimeout ctx.config)).log []
        (c.resendData ctx (ctx.now + c.retransmitTimeout ctx.config)).value.1
  | resendReset {c : Channel} :
      Move ctx .tick c
        (c.resendReset ctx (ctx.now + c.retransmitTimeout ctx.config)).log []
        (c.resendReset ctx (ctx.now + c.retransmitTimeout ctx.config)).value.1
  | roll {c : Channel} {meter : RateMeter} (complete : c.meter.roll? ctx.now = some meter) :
      Move ctx .tick c [] [] { c with meter }
  | tune {c : Channel} : Move ctx .tick c [] [] (c.tune ctx.config c.meter.last)

/-- A chain of moves on the occasion of one operation. -/
inductive Moves (ctx : Context) (op : Op) (c : Channel) :
    List Effect → List ParkedWrite → Channel → Prop
  | none : Moves ctx op c [] [] c
  | snoc {log log' : List Effect} {ws ws' : List ParkedWrite} {c' c'' : Channel}
      (before : Moves ctx op c log ws c') (last : Move ctx op c' log' ws' c'') :
      Moves ctx op c (log ++ log') (ws ++ ws') c''

namespace Moves

variable {ctx : Context} {op : Op}

theorem one {c c' : Channel} {log : List Effect} {ws : List ParkedWrite}
    (move : Move ctx op c log ws c') : Moves ctx op c log ws c' := by
  simpa using Moves.none.snoc move

theorem trans {c c' c'' : Channel} {log log' : List Effect} {ws ws' : List ParkedWrite}
    (first : Moves ctx op c log ws c') (second : Moves ctx op c' log' ws' c'') :
    Moves ctx op c (log ++ log') (ws ++ ws') c'' := by
  induction second with
  | none => simpa using first
  | snoc _ last ih =>
    rw [← List.append_assoc, ← List.append_assoc]
    exact ih.snoc last

/-- The chain of a computation in two parts that takes no writes in. -/
theorem bind {α β : Type} {c : Channel} {x : Logged Effect α} {f : α → Logged Effect β}
    {m : α → Channel} {r : β → Channel} (first : Moves ctx op c x.log [] (m x.value))
    (second : Moves ctx op (m x.value) (f x.value).log [] (r (f x.value).value)) :
    Moves ctx op c (x >>= f).log [] (r (x >>= f).value) :=
  first.trans second

end Moves

section Run

variable (config : Config) (clock : Clock) (ops ops' : List (Nat × Op)) (c : Channel)

theorem value_run_append :
    (run config clock (ops ++ ops') c).value =
      (run config clock ops' (run config clock ops c).value).value := by
  induction ops generalizing c with
  | nil => rfl
  | cons step ops ih => exact ih _

theorem log_run_append :
    (run config clock (ops ++ ops') c).log =
      (run config clock ops c).log ++
        (run config clock ops' (run config clock ops c).value).log := by
  induction ops generalizing c with
  | nil => rfl
  | cons step ops ih =>
    simp only [List.cons_append, run, Logged.log_bind, Logged.value_bind, ih, List.append_assoc]

end Run

end ReliableDatagram.Channel
