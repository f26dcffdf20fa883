import ReliableDatagram.Proofs.Channel.Speech

/-!
# The receive direction as a machine of its own

What a channel receives, and what it reports of it, depends on the packets with data and on the
answers to its requests alone, not on time and not on anything that the channel does besides.
`intake_run` says that the receive direction of a channel goes through the states of a machine,
`Intake`, that sees nothing but those packets. So any two runs with the same ones agree.
-/

namespace ReliableDatagram

/-- The events that the receive direction of a channel is the cause of. -/
def Event.isInbound : Event → Bool
  | .data _ _ | .resetSent _ => true
  | _ => false

/-- A packet that the receive direction takes note of. -/
def Packet.isInbound (p : Packet) : Bool :=
  match p.header.kind with
  | .data | .ackReset => true
  | _ => false

/-- The payloads that are delivered and the requests to start over, in order. -/
def inbound (log : List Effect) : List Event := (events log).filter Event.isInbound

@[simp] theorem inbound_append (log log' : List Effect) :
    inbound (log ++ log') = inbound log ++ inbound log' := by
  simp [inbound]

theorem inbound_eq_nil {log : List Effect}
    (silent : ∀ e ∈ log, ∀ event, e = .emit event → event.isInbound = false) :
    inbound log = [] := by
  refine List.filter_eq_nil_iff.mpr fun event told => ?_
  obtain ⟨e, logged, seen⟩ := List.mem_filterMap.mp told
  cases e with
  | emit event' =>
    obtain rfl := Option.some.inj seen
    simp [silent _ logged _ rfl]
  | _ => cases seen

namespace Channel

variable {ctx : Context} {op : Op} {c c' : Channel} {log : List Effect} {ws : List ParkedWrite}
variable {p : Packet} {window : Nat}

section Machine

/-- The receive direction of a channel. -/
structure Intake where
  key : Key
  expected : PacketId := .streamStart
  startedAt : Option UInt32 := none
  early : ReceiveQueue := {}
  /-- Whether a request to start over is pending. -/
  asking : Bool := false
  dropped : Nat := 0
  packetsReceived : Nat := 0
  bytesReceived : Nat := 0
deriving DecidableEq

namespace Intake

def place (i : Intake) (window : Nat) (p : Packet) : Placement :=
  Receiver.place { expected := i.expected, startedAt := i.startedAt, early := i.early } window
    p.header.id p.header.timestamp

/-- There is no stream, and none is asked for. -/
def clear (i : Intake) : Intake :=
  { i with expected := .streamStart, startedAt := none, early := {}, asking := false }

def start (i : Intake) (timestamp : UInt32) : Intake :=
  { i with startedAt := some timestamp, asking := false }

/-- Delivers a packet and what waited for it. -/
def accept (i : Intake) (p : Packet) : Logged Event Intake :=
  let (payloads, expected, early) := i.early.drain p.header.id.next
  let payloads := p.payload :: payloads
  ⟨{ i with
      expected
      early
      packetsReceived := i.packetsReceived + payloads.length
      bytesReceived := i.bytesReceived + totalLength payloads },
    payloads.map (.data i.key)⟩

def keep (i : Intake) (p : Packet) : Intake :=
  { i with early := i.early.insert p.header.id p.payload }

def drop (i : Intake) : Intake := { i with dropped := i.dropped + 1 }

def ask (i : Intake) : Logged Event Intake :=
  if i.asking then pure i else ⟨{ i with asking := true }, [.resetSent i.key]⟩

def onData (i : Intake) (window : Nat) (p : Packet) : Logged Event Intake :=
  match i.place window p with
  | .start => (i.start p.header.timestamp).accept p
  | .restart => (i.clear.start p.header.timestamp).accept p
  | .unplaced => i.ask
  | .next => i.accept p
  | .early => pure (i.keep p)
  | .repeatedStart | .buffered | .delivered | .stale | .beyondWindow => pure i.drop

def hear (i : Intake) (window : Nat) (p : Packet) : Logged Event Intake :=
  match p.header.kind with
  | .data => i.onData window p
  | .ackReset => pure (if i.asking then i.clear else i)
  | _ => pure i

def run (window : Nat) : List Packet → Intake → Logged Event Intake
  | [], i => pure i
  | p :: ps, i => do run window ps (← i.hear window p)

end Intake

/-- Where a channel's receive direction has got to. -/
def intake (c : Channel) : Intake where
  key := c.key
  expected := c.receiver.expected
  startedAt := c.receiver.startedAt
  early := c.receiver.early
  asking := c.receiver.pendingReset.isSome
  dropped := c.counters.dropped
  packetsReceived := c.counters.packetsReceived
  bytesReceived := c.counters.bytesReceived

/-- The packets that the receive direction takes note of among all that happens. -/
def heardOf (ops : List (Nat × Op)) : List Packet :=
  ops.filterMap fun
    | (_, .packet p) => if p.isInbound then some p else none
    | _ => none

def Op.isDestroy : Op → Bool
  | .destroy _ => true
  | _ => false

end Machine

section Step

theorem intake_resendData (c : Channel) (deadline : Nat) :
    (c.resendData ctx deadline).value.1.intake = c.intake := by
  unfold resendData
  dsimp only
  split <;> rfl

/-- Time, and all that the channel does besides, leaves the receive direction alone. -/
theorem Move.intake_eq (move : Move ctx op c log ws c')
    (other : ∀ p, op = .packet p → p.isInbound = false) :
    c'.intake = c.intake ∧ inbound log = [] := by
  have foreign {p : Packet} (asked : op = .packet p) {kind : Packet.Kind}
      (kind_eq : p.header.kind = kind) (seen : kind = .data ∨ kind = .ackReset) : False := by
    have unseen := other p asked
    rcases seen with rfl | rfl <;> simp [Packet.isInbound, kind_eq] at unseen
  cases move with
  | accept kind | acceptStart kind | restart kind | confirm kind | keep kind | drop kind
  | requestReset kind => exact (foreign rfl kind (.inl rfl)).elim
  | resetAnswered kind => exact (foreign rfl kind (.inr rfl)).elim
  | measure =>
    refine ⟨rfl, inbound_eq_nil fun e logged event same => ?_⟩
    obtain ⟨rtt, rfl⟩ := mem_onAckPing_log logged
    cases same
    rfl
  | resendData =>
    refine ⟨intake_resendData _ _, inbound_eq_nil fun e logged event same => ?_⟩
    obtain ⟨x, _, rfl⟩ := mem_resendData_log _ _ logged
    cases same
  | resendReset =>
    constructor
    · rcases resendReset_value ctx c (ctx.now + c.retransmitTimeout ctx.config) with
        same | ⟨r, attempts, pending, same⟩
      · rw [same]
      · rw [same]
        simp [intake, pending]
    · refine inbound_eq_nil fun e logged event same => ?_
      obtain ⟨x, _, rfl⟩ := mem_resendReset_log _ _ _ logged
      cases same
  | tune =>
    obtain ⟨limit, same⟩ := c.tune_eq ctx.config c.meter.last
    rw [same]
    exact ⟨rfl, rfl⟩
  | _ => exact ⟨rfl, rfl⟩

theorem Moves.intake_eq (moves : Moves ctx op c log ws c')
    (other : ∀ p, op = .packet p → p.isInbound = false) :
    c'.intake = c.intake ∧ inbound log = [] := by
  induction moves with
  | none => exact ⟨rfl, rfl⟩
  | snoc _ last ih =>
    obtain ⟨same, silent⟩ := last.intake_eq other
    exact ⟨same.trans ih.1, by rw [inbound_append, ih.2, silent]; rfl⟩

/-- A computation of a channel takes its receive direction through a step of the machine. -/
structure Takes (x : Logged Effect Channel) (y : Logged Event Intake) : Prop where
  value : x.value.intake = y.value
  log : inbound x.log = y.log

theorem intake_checkConnected (c : Channel) :
    c.checkConnected.value.intake = c.intake ∧ inbound c.checkConnected.log = [] := by
  unfold checkConnected
  split <;> exact ⟨rfl, rfl⟩

theorem inbound_data (key : Key) (delivered : List Bytes) :
    inbound (delivered.map fun payload => .emit (.data key payload)) =
      delivered.map (.data key) := by
  induction delivered with
  | nil => rfl
  | cons payload delivered ih => exact congrArg (_ :: ·) ih

theorem takes_accept (ctx : Context) (c : Channel) (p : Packet) :
    Takes (c.accept ctx p) (c.intake.accept p) := by
  have checked := intake_checkConnected (c.transmit ctx p.ack).value
  constructor
  · unfold Channel.accept
    rw [Logged.value_bind, Logged.value_bind]
    generalize ((c.transmit ctx p.ack).value.checkConnected).value = d at checked ⊢
    simp only [intake, Channel.transmit, Intake.mk.injEq] at checked
    obtain ⟨⟨key, expected, startedAt, early, asking, dropped, packets, bytes⟩, _⟩ := checked
    simp only [Receiver.accept, Intake.accept, intake, key, startedAt, early, asking, dropped, packets,
      bytes]
  · have key : ((c.transmit ctx p.ack).value.checkConnected).value.key = c.key :=
      checkConnected_key _
    rw [log_accept, ← List.singleton_append, inbound_append, inbound_append, checked.2, inbound_data]
    rfl

theorem takes_acceptStart (ctx : Context) (c : Channel) (p : Packet) :
    Takes (c.acceptStart ctx p) ((c.intake.start p.header.timestamp).accept p) :=
  takes_accept ctx { c with receiver := c.receiver.start p.header.timestamp } p

/-- The channel starts over before it accepts the start of another stream. -/
theorem takes_restart (ctx : Context) (c : Channel) (p : Packet) :
    Takes (do (← c.startOver ctx).acceptStart ctx p)
      ((c.intake.clear.start p.header.timestamp).accept p) := by
  have moves : Moves ctx .ping { c with sender := c.sender.startOver, receiver := {} } _ [] _ :=
    moves_flush _ .ping
  obtain ⟨cleared, silent⟩ := moves.intake_eq nofun
  have cleared : (c.startOver ctx).value.intake = c.intake.clear := cleared
  have silent : inbound (c.startOver ctx).log = [] := silent
  have accepted := takes_acceptStart ctx (c.startOver ctx).value p
  rw [cleared] at accepted
  refine ⟨accepted.value, ?_⟩
  rw [Logged.log_bind, inbound_append, silent]
  exact accepted.log

theorem takes_requestReset (ctx : Context) (c : Channel) :
    Takes (c.requestReset ctx) c.intake.ask := by
  cases pending : c.receiver.pendingReset with
  | none =>
    have idle : c.intake.asking = false := by simp [intake, pending]
    simp only [requestReset_idle pending, Intake.ask, idle, Bool.false_eq_true, if_false]
    exact ⟨rfl, rfl⟩
  | some r =>
    have asked : c.intake.asking = true := by simp [intake, pending]
    simp only [requestReset_pending pending, Intake.ask, asked, if_true]
    exact ⟨rfl, rfl⟩

theorem takes_onData (ctx : Context) (c : Channel) (p : Packet) :
    Takes (c.onData ctx p) (c.intake.onData ctx.config.receiveWindow p) := by
  have same : c.intake.place ctx.config.receiveWindow p =
    c.receiver.place ctx.config.receiveWindow p.header.id p.header.timestamp := rfl
  unfold onData Intake.onData
  rw [same]
  generalize c.receiver.place ctx.config.receiveWindow p.header.id p.header.timestamp = place
  cases place with
  | start => exact takes_acceptStart ctx c p
  | restart => exact takes_restart ctx c p
  | unplaced => exact takes_requestReset ctx c
  | next => exact takes_accept ctx c p
  | _ => exact ⟨rfl, rfl⟩

theorem takes_onAckReset (c : Channel) :
    Takes c.onAckReset (pure (if c.intake.asking then c.intake.clear else c.intake)) := by
  unfold onAckReset
  have asking : c.intake.asking = c.receiver.pendingReset.isSome := rfl
  rw [asking]
  split <;> exact ⟨rfl, rfl⟩

/-- A packet takes the receive direction through a step of the machine. -/
theorem takes_onPacket (ctx : Context) (c : Channel) (heard : p.isInbound = true) :
    Takes (c.onPacket ctx p) (c.intake.hear ctx.config.receiveWindow p) := by
  have dispatched : Takes ((c.heard ctx).dispatch ctx p)
      (c.intake.hear ctx.config.receiveWindow p) := by
    unfold dispatch Intake.hear
    unfold Packet.isInbound at heard
    generalize p.header.kind = kind at heard
    cases kind with
    | data => exact takes_onData ctx (c.heard ctx) p
    | ackReset => exact takes_onAckReset (c.heard ctx)
    | _ => cases heard
  obtain ⟨same, silent⟩ := intake_checkConnected ((c.heard ctx).dispatch ctx p).value
  have log : (c.onPacket ctx p).log = ((c.heard ctx).dispatch ctx p).log ++
    ((c.heard ctx).dispatch ctx p).value.checkConnected.log := rfl
  refine ⟨same.trans dispatched.value, ?_⟩
  rw [log, inbound_append, silent, List.append_nil]
  exact dispatched.log

/-- Anything else leaves it where it is, unless the channel is destroyed. -/
theorem takes_apply (ctx : Context) (c : Channel) (alive : op.isDestroy = false)
    (other : ∀ p, op = .packet p → p.isInbound = false) :
    Takes (c.apply ctx op) (pure c.intake) := by
  rcases apply_cases ctx op c with ⟨ws, moves⟩ | ⟨reason, rfl⟩
  · obtain ⟨same, silent⟩ := moves.intake_eq other
    exact ⟨same, silent⟩
  · cases alive

end Step

section Run

variable {config : Config} {clock clock' : Clock} {ops ops' : List (Nat × Op)}

/-- The channel is not destroyed. -/
def Survives (ops : List (Nat × Op)) : Prop := ∀ step ∈ ops, step.2.isDestroy = false

instance (ops : List (Nat × Op)) : Decidable (Survives ops) :=
  inferInstanceAs (Decidable (∀ _ ∈ _, _))

/-- The receive direction of a channel is a run of the machine over what it takes note of. -/
theorem intake_run (config : Config) (clock : Clock) (survives : Survives ops) (c : Channel) :
    Takes (run config clock ops c) (Intake.run config.receiveWindow (heardOf ops) c.intake) := by
  induction ops generalizing c with
  | nil => exact ⟨rfl, rfl⟩
  | cons step ops ih =>
    obtain ⟨now, op⟩ := step
    obtain ⟨alive, survives⟩ := List.forall_mem_cons.mp survives
    have rest := ih survives (c.apply ⟨now, config, clock⟩ op).value
    by_cases heard : ∃ p, op = .packet p ∧ p.isInbound = true
    · obtain ⟨p, rfl, heard⟩ := heard
      obtain ⟨value, log⟩ := takes_onPacket ⟨now, config, clock⟩ c heard
      have value : (c.apply ⟨now, config, clock⟩ (.packet p)).value.intake = _ := value
      rw [value] at rest
      have packets : heardOf ((now, .packet p) :: ops) = p :: heardOf ops := by
        simp [heardOf, heard]
      rw [packets]
      refine ⟨rest.value, ?_⟩
      show inbound ((c.onPacket _ p).log ++ _) = _
      rw [inbound_append, log, rest.log]
      rfl
    · have other : ∀ p, op = .packet p → p.isInbound = false := fun p asked => by
        simpa using fun seen => heard ⟨p, asked, seen⟩
      obtain ⟨value, log⟩ := takes_apply ⟨now, config, clock⟩ c alive other
      have value : (c.apply ⟨now, config, clock⟩ op).value.intake = c.intake := value
      rw [value] at rest
      have packets : heardOf ((now, op) :: ops) = heardOf ops := by
        cases op with
        | packet p => simp [heardOf, other p rfl]
        | _ => rfl
      rw [packets]
      refine ⟨rest.value, ?_⟩
      show inbound ((c.apply _ op).log ++ _) = _
      rw [inbound_append, log]
      exact rest.log

/-- Any two channels with the same key that process the same packets with data and the same answers
to requests agree in the receive direction, whatever else happens to them and whenever: they deliver
the same payloads and ask for the same resets, and they are left with the same expected id, the same
stream start, the same early packets, the same question whether a request is pending, and the same
counters. -/
theorem receive_direction_determined (config : Config) (clock clock' : Clock) (key : Key)
    (generation generation' start start' : Nat) (survives : Survives ops)
    (survives' : Survives ops') (same : heardOf ops = heardOf ops') :
    let x := run config clock ops (create key generation config start)
    let y := run config clock' ops' (create key generation' config start')
    x.value.intake = y.value.intake ∧ inbound x.log = inbound y.log := by
  intro x y
  have first := intake_run config clock survives (create key generation config start)
  have second := intake_run config clock' survives' (create key generation' config start')
  rw [← same] at second
  exact ⟨first.value.trans second.value.symm, first.log.trans second.log.symm⟩

/-- A packet that comes before its stream starts, the answer to the request that follows it, and four
packets of the stream, one of them twice. -/
def opening : List Packet :=
  let data (id : UInt32) (timestamp : UInt32) : Packet := .data 1 ⟨id⟩ timestamp [7]
  [data 5 0, (Packet.reset 1 0).ackReset, data 0 3, data 2 4, data 2 4, data 1 4]

/-- The same packets, late and between a tick that repeats the request, writes, and packets that start
the other direction over, acknowledge data and measure the round trip time. -/
def bustle : List (Nat × Op) :=
  let packet (p : Packet) : Op := .packet p
  let answer (p : Packet) : Op := .packet p.ackPing
  (opening.take 1).map (0, packet ·) ++
    [(second, .write ⟨0, [1]⟩), (second, .tick), (second, packet (.reset 1 9))] ++
    (opening.drop 1).map (2 * second, packet ·) ++
    [(2 * second, packet (Packet.data 1 .streamStart 1000 [1]).ack), (2 * second, .ping),
      (3 * second, answer (.ping 1 2000 [])), (3 * second, packet (.ping 1 0 [5])),
      (3 * second, .tick)]

/-- What is asked for, delivered, kept and counted is the same. -/
theorem receive_direction_determined_of_bustle :
    let x := run {} ⟨0, 0⟩ bustle (create ⟨⟨.v4 1, 1⟩, 1⟩ 1 {} 0)
    let y := run {} ⟨0, 7⟩ (opening.map (millisecond, .packet ·)) (create ⟨⟨.v4 1, 1⟩, 1⟩ 8 {} 5)
    (x.value.intake = y.value.intake ∧ inbound x.log = inbound y.log) ∧ x.value ≠ y.value ∧
      inbound y.log = [.resetSent ⟨⟨.v4 1, 1⟩, 1⟩, .data ⟨⟨.v4 1, 1⟩, 1⟩ [7],
        .data ⟨⟨.v4 1, 1⟩, 1⟩ [7], .data ⟨⟨.v4 1, 1⟩, 1⟩ [7]] :=
  ⟨receive_direction_determined {} ⟨0, 0⟩ ⟨0, 7⟩ ⟨⟨.v4 1, 1⟩, 1⟩ 1 8 0 5 (by decide +kernel)
      (by decide +kernel) (by decide +kernel),
    by decide +kernel, by decide +kernel⟩

end Run

end Channel

end ReliableDatagram
