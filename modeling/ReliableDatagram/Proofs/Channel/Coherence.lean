import ReliableDatagram.Proofs.Channel.Buffers
import ReliableDatagram.Proofs.Channel.StreamStart
import ReliableDatagram.Proofs.Channel.Traffic

/-!
# The parts of a receiver

A receiver has a stream if and only if it remembers the stamp of its start. Without one it keeps
nothing early, and only without one does it ask for a stream. What it keeps early lies ahead of the
expected id, within the window. `receiver_orderly` says so of whatever happens to a channel, and that
nothing but a stream start is acknowledged or delivered while there is no stream.
-/

namespace ReliableDatagram.Channel

open PacketId

variable {ctx : Context} {op : Op} {c c' : Channel} {log : List Effect} {ws : List ParkedWrite}
variable {window : Nat} {r : Receiver} {p : Packet}

structure Coherent (window : Nat) (r : Receiver) : Prop extends Windowed window r where
  started : r.expected = .streamStart ↔ r.startedAt = none
  asks : r.pendingReset.isSome → r.expected = .streamStart

theorem coherent_fresh (window : Nat) : Coherent window {} :=
  ⟨windowed_fresh window, ⟨fun _ => rfl, fun _ => rfl⟩, nofun⟩

/-- The expected id is delivered at once, so that it is never kept. -/
theorem Coherent.get?_expected (coherent : Coherent window r) :
    r.early.get? r.expected = none := by
  cases kept : r.early.get? r.expected with
  | none => rfl
  | some payload =>
    have ahead := (coherent.early _ _ kept).2.1
    rw [distanceTo_self] at ahead
    omega

theorem Coherent.waiting (coherent : Coherent window r) (none : r.expected = .streamStart) :
    Waiting r :=
  ⟨none, fun id => by rw [coherent.waits none]; rfl⟩

theorem Receives.coherent (receives : Receives ctx c r)
    (coherent : Coherent ctx.config.receiveWindow c.receiver) :
    Coherent ctx.config.receiveWindow r := by
  have windowed := receives.windowed coherent.toWindowed
  cases receives with
  | rest => exact coherent
  | @accept p place =>
    obtain ⟨_, going, _⟩ := Receiver.place_eq_next place
    have later := expected_accept_ne c.receiver p.header.id p.payload
    refine ⟨windowed, ⟨fun start => absurd start later, fun unknown => ?_⟩, fun asks => ?_⟩
    · exact absurd (coherent.started.mpr unknown) going
    · exact absurd (coherent.asks asks) going
  | @acceptStart p =>
    have later :=
      expected_accept_ne (c.receiver.start p.header.timestamp) p.header.id p.payload
    exact ⟨windowed, ⟨fun start => absurd start later, nofun⟩, nofun⟩
  | keep => exact ⟨windowed, coherent.started, coherent.asks⟩
  | ask due =>
    refine ⟨windowed, coherent.started, fun _ => ?_⟩
    rcases due with waits | asks
    · exact waits
    · exact coherent.asks asks
  | clear => exact coherent_fresh _

theorem Moves.coherent (moves : Moves ctx op c log ws c')
    (coherent : Coherent ctx.config.receiveWindow c.receiver) :
    Coherent ctx.config.receiveWindow c'.receiver := by
  induction moves with
  | none => exact coherent
  | snoc _ last ih => exact last.receives.coherent ih

theorem Coherent.apply (ctx : Context)
    (coherent : Coherent ctx.config.receiveWindow c.receiver) (op : Op) :
    Coherent ctx.config.receiveWindow (c.apply ctx op).value.receiver := by
  rcases apply_cases ctx op c with ⟨_, moves⟩ | ⟨reason, rfl⟩
  · exact moves.coherent coherent
  · exact ⟨⟨fun _ => rfl, spans_empty _ _ _⟩, coherent.started, nofun⟩

theorem Coherent.run (config : Config) (clock : Clock) (ops : List (Nat × Op))
    (coherent : Coherent config.receiveWindow c.receiver) :
    Coherent config.receiveWindow (run config clock ops c).value.receiver := by
  induction ops generalizing c with
  | nil => exact coherent
  | cons step ops ih => exact ih (coherent.apply ⟨step.1, config, clock⟩ step.2)

section Waiting

/-- While there is no stream, nothing but a stream start is acknowledged. -/
theorem Move.acks_nothing (move : Move ctx op c log ws c') (labelled : c.Labelled)
    (waiting : Waiting c.receiver)
    (other : ∀ p, op = .packet p → p.header.kind = .data → p.header.id ≠ .streamStart) :
    sentIds .ack log = [] := by
  have unplaced {p : Packet} (asked : op = .packet p) (kind : p.header.kind = .data) :
      c.placeOf ctx p = .unplaced := waiting.place (other p asked kind) ctx
  cases move with
  | accept kind place | acceptStart kind place | restart kind place | keep kind place =>
    rw [unplaced rfl kind] at place
    cases place
  | confirm kind place =>
    rw [unplaced rfl kind] at place
    rcases place with place | place | place <;> cases place
  | say speech => exact (sentIds_send _ _ _).trans (if_neg speech.kind.2.1)
  | send => exact sentIds_sendWrite _ _
  | requestReset _ _ idle => exact sentIds_requestReset _ idle
  | measure => exact (silent_onAckPing _ _).sentIds _
  | resendData => exact sentIds_resendData_of_ne _ labelled nofun
  | resendReset => exact sentIds_resendReset_of_ne _ labelled nofun
  | _ => rfl

theorem Moves.acks_nothing (moves : Moves ctx op c log ws c') (labelled : c.Labelled)
    (waiting : Waiting c.receiver)
    (other : ∀ p, op = .packet p → p.header.kind = .data → p.header.id ≠ .streamStart) :
    sentIds .ack log = [] := by
  induction moves with
  | none => rfl
  | snoc before last ih =>
    rw [sentIds_append, ih,
      last.acks_nothing (before.labelled labelled) (before.waiting waiting other).1 other]
    rfl

/-- What comes of an operation while there is no stream: a stream start is acknowledged and
delivered, alone, or nothing is, and the receiver goes on waiting. Nothing is kept either way. -/
inductive Awaits (op : Op) (log : List Effect) (r : Receiver) : Prop
  | begins {p : Packet} (asked : op = .packet p) (kind : p.header.kind = .data)
      (start : p.header.id = .streamStart) (acks : sentIds .ack log = [.streamStart])
      (delivers : payloads log = [p.payload]) (early : r.early = {})
  | waits (expected : r.expected = .streamStart) (acks : sentIds .ack log = [])
      (delivers : payloads log = []) (early : r.early = {})

theorem sentIds_onPacket (kind : Packet.Kind) (c : Channel) (p : Packet) :
    sentIds kind (c.onPacket ctx p).log = sentIds kind ((c.heard ctx).dispatch ctx p).log := by
  unfold onPacket
  rw [Logged.log_bind, sentIds_append, (silent_checkConnected _).sentIds, List.append_nil]
  rfl

theorem awaits_start (coherent : Coherent ctx.config.receiveWindow c.receiver)
    (waiting : Waiting c.receiver) (kind : p.header.kind = .data)
    (start : p.header.id = .streamStart) :
    Awaits (.packet p) (c.onPacket ctx p).log (c.onPacket ctx p).value.receiver := by
  have place := waiting.place_start start ctx
  obtain ⟨receiver, delivers⟩ := onPacket_start kind place
  have empty : (c.receiver.start p.header.timestamp).early = {} := coherent.waits waiting.expected
  have none : ({} : ReceiveQueue).get? p.header.id.next = none := rfl
  rw [Receiver.accept, empty, ReceiveQueue.drain_missing none] at receiver delivers
  refine .begins rfl kind start ?_ delivers ?_
  · rw [sentIds_onPacket, dispatch_data kind]
    simp only [onData, place_heard place, acceptStart]
    rw [sentIds_accept, if_pos rfl, start]
  · rw [receiver]

theorem Coherent.awaits (ctx : Context)
    (coherent : Coherent ctx.config.receiveWindow c.receiver)
    (labelled : c.Labelled) (none : c.receiver.expected = .streamStart) (op : Op) :
    Awaits op (c.apply ctx op).log (c.apply ctx op).value.receiver := by
  have waiting := coherent.waiting none
  by_cases begins : ∃ p, op = .packet p ∧ p.header.kind = .data ∧ p.header.id = .streamStart
  · obtain ⟨p, rfl, kind, start⟩ := begins
    exact awaits_start coherent waiting kind start
  · have other : ∀ p, op = .packet p → p.header.kind = .data → p.header.id ≠ .streamStart :=
      fun p asked kind start => begins ⟨p, asked, kind, start⟩
    rcases apply_cases ctx op c with ⟨_, moves⟩ | ⟨reason, rfl⟩
    · obtain ⟨waiting', silent⟩ := moves.waiting waiting other
      exact .waits waiting'.expected (moves.acks_nothing labelled waiting other) silent
        ((moves.coherent coherent).waits waiting'.expected)
    · exact .waits none ((silent_destroy c reason).sentIds _) (payloads_destroy c reason) rfl

end Waiting

/-- What is always true of a receiver. -/
structure Orderly (config : Config) (clock : Clock) (c : Channel) : Prop where
  coherent : Coherent config.receiveWindow c.receiver
  expectedApart : c.receiver.early.get? c.receiver.expected = none
  /-- Without a stream, nothing but a stream start is acknowledged or delivered, and nothing is kept,
  whatever happens next. -/
  awaits : c.receiver.expected = .streamStart → ∀ now op,
    Awaits op (c.apply ⟨now, config, clock⟩ op).log
      (c.apply ⟨now, config, clock⟩ op).value.receiver

/-- Whatever has happened to a channel, at whatever times, its receiver is in order. -/
theorem receiver_orderly (config : Config) (clock : Clock) (key : Key) (generation start : Nat)
    (ops : List (Nat × Op)) :
    Orderly config clock (run config clock ops (create key generation config start)).value := by
  have coherent : Coherent config.receiveWindow
      (run config clock ops (create key generation config start)).value.receiver :=
    (coherent_fresh _).run config clock ops
  have labelled := (labelled_create key generation config start).run config clock ops
  exact ⟨coherent, coherent.get?_expected,
    fun none now op => coherent.awaits ⟨now, config, clock⟩ labelled none op⟩

end ReliableDatagram.Channel
