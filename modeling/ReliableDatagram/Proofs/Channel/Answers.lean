import ReliableDatagram.Proofs.Channel.Opening

/-!
# Answers to packets

What the kind of a packet, and for data its place, decides: the state of both directions afterwards,
the packets that are sent in answer and the payloads that are delivered.
-/

namespace ReliableDatagram.Channel

open PacketId

variable {ctx : Context} {op : Op} {c c' : Channel} {log : List Effect} {p : Packet}

theorem payloads_release (ws : List ParkedWrite) (c : Channel) :
    payloads (release ctx ws c).log = [] := by
  induction ws generalizing c with
  | nil => rfl
  | cons w ws ih =>
    simp only [release]
    split
    · exact ih _
    · rfl

theorem payloads_startOver (c : Channel) : payloads (c.startOver ctx).log = [] :=
  payloads_release _ _

theorem receiver_startOver (c : Channel) : (c.startOver ctx).value.receiver = {} :=
  flush_receiver _

theorem packets_release (ws : List ParkedWrite) (c : Channel)
    (channel_le : c.key.channel ≤ Packet.maxChannel) (short : ∀ w ∈ ws, w.payload.length ≤ 0xffff) :
    ∀ q ∈ packets (release ctx ws c).log, q.header.kind = .data := by
  induction ws generalizing c with
  | nil => exact List.forall_mem_nil _
  | cons w ws ih =>
    simp only [release]
    split
    · intro q mem
      rw [Logged.log_bind, packets_append] at mem
      rcases List.mem_append.mp mem with first | rest
      · rw [log_sendWrite_packet rfl, packets_append,
          packets_send _ (Packet.wellFormed_data channel_le (short w List.mem_cons_self))] at first
        rcases List.mem_singleton.mp first with rfl
        rfl
      · exact ih (c.sendWrite ctx w).value channel_le
          (fun v waits => short v (List.mem_cons_of_mem _ waits)) q rest
    · exact List.forall_mem_nil _

theorem packets_flush (channel_le : c.key.channel ≤ Packet.maxChannel)
    (short : ∀ w ∈ c.sender.parked, w.payload.length ≤ 0xffff) {q : Packet}
    (mem : q ∈ packets (c.flush ctx).log) : q.header.kind = .data :=
  packets_release _ c channel_le short q mem

/-- A channel that takes note of a packet. -/
def heard (c : Channel) (ctx : Context) : Channel :=
  { c with hasReceived := true, lastReceived := ctx.now }

/-- Taking note of a packet does not change where it belongs. -/
theorem place_heard {place : Placement} (here : c.placeOf ctx p = place) :
    (c.heard ctx).receiver.place ctx.config.receiveWindow p.header.id p.header.timestamp = place :=
  here

section Parts

/-! Up to the news of a connection, a packet does what its kind says. -/

theorem onPacket_sender (ctx : Context) (c : Channel) (p : Packet) :
    (c.onPacket ctx p).value.sender = ((c.heard ctx).dispatch ctx p).value.sender :=
  checkConnected_sender _

theorem onPacket_receiver (ctx : Context) (c : Channel) (p : Packet) :
    (c.onPacket ctx p).value.receiver = ((c.heard ctx).dispatch ctx p).value.receiver :=
  checkConnected_receiver _

theorem packets_onPacket (ctx : Context) (c : Channel) (p : Packet) :
    packets (c.onPacket ctx p).log = packets ((c.heard ctx).dispatch ctx p).log := by
  unfold onPacket
  rw [Logged.log_bind, packets_append, packets_checkConnected, List.append_nil]
  rfl

theorem payloads_onPacket (ctx : Context) (c : Channel) (p : Packet) :
    payloads (c.onPacket ctx p).log = payloads ((c.heard ctx).dispatch ctx p).log := by
  unfold onPacket
  rw [Logged.log_bind, payloads_append, payloads_checkConnected, List.append_nil]
  rfl

end Parts

theorem dispatch_data (kind : p.header.kind = .data) : c.dispatch ctx p = c.onData ctx p := by
  simp only [dispatch, kind]

theorem packets_requestReset (sound : c.Sound) :
    packets (c.requestReset ctx).log =
      if c.receiver.pendingReset.isSome then [] else [.reset c.key.channel ctx.timestamp] := by
  cases pending : c.receiver.pendingReset with
  | none =>
    rw [requestReset_idle pending, ← List.singleton_append, packets_append,
      packets_send _ (Packet.wellFormed_reset sound.channel_le)]
    rfl
  | some r =>
    rw [requestReset_pending pending]
    rfl

theorem Sound.heard (sound : c.Sound) (ctx : Context) : (c.heard ctx).Sound :=
  ⟨sound.1, sound.2, sound.3, sound.4⟩

section Data

variable (kind : p.header.kind = .data)
include kind

/-- A start that begins a stream is delivered with what waited for it, if anything did. -/
theorem onPacket_start (place : c.placeOf ctx p = .start) :
    (c.onPacket ctx p).value.receiver =
        ((c.receiver.start p.header.timestamp).accept p.header.id p.payload).2 ∧
      payloads (c.onPacket ctx p).log =
        ((c.receiver.start p.header.timestamp).accept p.header.id p.payload).1 := by
  rw [onPacket_receiver, payloads_onPacket, dispatch_data kind]
  simp only [onData, place_heard place]
  exact ⟨acceptStart_receiver _ p, payloads_accept⟩

theorem packets_onPacket_start (known : (Op.packet p).Sound c.key)
    (place : c.placeOf ctx p = .start) : packets (c.onPacket ctx p).log = [p.ack] := by
  rw [packets_onPacket, dispatch_data kind]
  simp only [onData, place_heard place]
  exact packets_accept known.1

theorem onPacket_restart (place : c.placeOf ctx p = .restart) :
    (c.onPacket ctx p).value.receiver =
        ((({} : Receiver).start p.header.timestamp).accept p.header.id p.payload).2 ∧
      payloads (c.onPacket ctx p).log =
        ((({} : Receiver).start p.header.timestamp).accept p.header.id p.payload).1 := by
  rw [onPacket_receiver, payloads_onPacket, dispatch_data kind]
  simp only [onData, place_heard place, Logged.value_bind, Logged.log_bind, payloads_append,
    payloads_startOver, List.nil_append]
  rw [acceptStart_receiver, receiver_startOver, acceptStart, payloads_accept, receiver_startOver]
  exact ⟨rfl, rfl⟩

/-- A copy of the current stream's start is acknowledged only. -/
theorem onPacket_repeatedStart (known : (Op.packet p).Sound c.key)
    (place : c.placeOf ctx p = .repeatedStart) :
    (c.onPacket ctx p).value.receiver = c.receiver ∧ packets (c.onPacket ctx p).log = [p.ack] := by
  rw [onPacket_receiver, packets_onPacket, dispatch_data kind]
  simp only [onData, place_heard place]
  exact ⟨rfl, packets_transmit known.1.ack⟩

/-- The request to start over is made only once. -/
theorem onPacket_unplaced (sound : c.Sound) (place : c.placeOf ctx p = .unplaced) :
    (c.onPacket ctx p).value.receiver.expected = c.receiver.expected ∧
      (c.onPacket ctx p).value.receiver.pendingReset.isSome ∧
      payloads (c.onPacket ctx p).log = [] ∧
      packets (c.onPacket ctx p).log =
        if c.receiver.pendingReset.isSome then [] else [.reset c.key.channel ctx.timestamp] := by
  rw [onPacket_receiver, payloads_onPacket, packets_onPacket, dispatch_data kind]
  simp only [onData, place_heard place]
  rw [packets_requestReset (sound.heard ctx)]
  cases pending : c.receiver.pendingReset with
  | none =>
    have idle : (c.heard ctx).receiver.pendingReset = none := pending
    rw [requestReset_idle idle]
    exact ⟨rfl, rfl, rfl, by rw [idle]; rfl⟩
  | some r =>
    have asked : (c.heard ctx).receiver.pendingReset = some r := pending
    rw [requestReset_pending asked]
    exact ⟨rfl, Option.isSome_iff_exists.mpr ⟨r, asked⟩, rfl, by rw [asked]; rfl⟩

/-- Data that begins no other stream is acknowledged wherever it is not turned away. -/
theorem packets_onPacket_placed (known : (Op.packet p).Sound c.key)
    (begun : c.placeOf ctx p ≠ .restart ∧ c.placeOf ctx p ≠ .unplaced)
    (near : c.placeOf ctx p ≠ .stale ∧ c.placeOf ctx p ≠ .beyondWindow) :
    packets (c.onPacket ctx p).log = [p.ack] := by
  rw [packets_onPacket, dispatch_data kind]
  unfold onData
  rw [place_heard rfl]
  split
  · exact packets_accept known.1
  · next place => exact absurd place begun.1
  · next place => exact absurd place begun.2
  · exact packets_accept known.1
  · exact packets_transmit known.1.ack
  · exact packets_transmit known.1.ack
  · exact packets_transmit known.1.ack
  · exact packets_transmit known.1.ack
  · next place => exact absurd place near.1
  · next place => exact absurd place near.2

/-- Data that begins no other stream than the current one leaves the send direction alone. -/
theorem onPacket_data (known : (Op.packet p).Sound c.key) (sound : c.Sound)
    (place : c.placeOf ctx p ≠ .restart) :
    (c.onPacket ctx p).value.sender = c.sender ∧
      (packets (c.onPacket ctx p).log = [] ∨ packets (c.onPacket ctx p).log = [p.ack] ∨
        packets (c.onPacket ctx p).log = [.reset c.key.channel ctx.timestamp]) := by
  rw [onPacket_sender, packets_onPacket, dispatch_data kind]
  unfold onData
  rw [place_heard rfl]
  split
  · exact ⟨acceptStart_sender _ _, .inr (.inl (packets_accept known.1))⟩
  · next restart => exact absurd restart place
  · refine ⟨?_, ?_⟩
    · unfold requestReset
      split <;> rfl
    · rw [packets_requestReset (sound.heard ctx)]
      split
      · exact .inl rfl
      · exact .inr (.inr rfl)
  · exact ⟨accept_sender _ _, .inr (.inl (packets_accept known.1))⟩
  · exact ⟨rfl, .inr (.inl (packets_transmit known.1.ack))⟩
  · exact ⟨rfl, .inr (.inl (packets_transmit known.1.ack))⟩
  · exact ⟨rfl, .inr (.inl (packets_transmit known.1.ack))⟩
  · exact ⟨rfl, .inr (.inl (packets_transmit known.1.ack))⟩
  · exact ⟨rfl, .inl rfl⟩
  · exact ⟨rfl, .inl rfl⟩

end Data

/-- What is sent when the send direction starts over is the start of a new stream, or nothing. -/
theorem proceeds_startOver (ctx : Context) (sound : c.Sound) {d : Channel} (key : d.key = c.key)
    (sender : d.sender = c.sender.startOver) (pending : d.receiver.pendingReset = none ∨
      d.receiver = c.receiver) :
    Proceeds d.sender (packets (d.flush ctx).log) (d.flush ctx).value.sender ∧
      ∀ q ∈ packets (d.flush ctx).log, q.header.kind = .data := by
  have dSound : d.Sound := by
    refine sound.mono key (by simp [sender, Sender.startOver]) (fun r held => ?_)
      (by simp [sender, Sender.startOver])
    rcases pending with none | same
    · rw [none] at held
      cases held
    · rw [same] at held
      exact ⟨r, held, rfl⟩
  constructor
  · refine (moves_flush d .tick).proceeds (fun _ => Op.noConfusion) dSound trivial ?_
    rw [sender]
    exact .blank (blank_startOver _)
  · exact fun q mem => packets_flush dSound.channel_le dSound.parked mem

/-- The start of another stream makes the send direction start over, too. -/
theorem onPacket_restart_sender (sound : c.Sound) (known : (Op.packet p).Sound c.key)
    (kind : p.header.kind = .data) (place : c.placeOf ctx p = .restart) :
    ∃ sent, packets (c.onPacket ctx p).log = sent ++ [p.ack] ∧
      Proceeds c.sender.startOver sent (c.onPacket ctx p).value.sender ∧
      ∀ q ∈ sent, q.header.kind = .data := by
  rw [onPacket_sender, packets_onPacket, dispatch_data kind]
  simp only [onData, place_heard place, Logged.value_bind, Logged.log_bind, packets_append]
  obtain ⟨proceeds, data⟩ := proceeds_startOver ctx sound
    (d := { c.heard ctx with sender := c.sender.startOver, receiver := {} }) rfl rfl (.inl rfl)
  refine ⟨_, ?_, ?_, data⟩
  · rw [acceptStart, packets_accept known.1]
    rfl
  · rw [acceptStart_sender]
    exact proceeds

theorem onPacket_reset (ctx : Context) (sound : c.Sound) (known : (Op.packet p).Sound c.key)
    (kind : p.header.kind = .reset) :
    ∃ sent, packets (c.onPacket ctx p).log = p.ackReset :: sent ∧
      Proceeds c.sender.startOver sent (c.onPacket ctx p).value.sender ∧
      ∀ q ∈ sent, q.header.kind = .data := by
  rw [onPacket_sender, packets_onPacket]
  simp only [dispatch, kind, onReset, Logged.value_bind, Logged.log_bind, packets_append]
  obtain ⟨proceeds, data⟩ := proceeds_startOver ctx sound
    (d := { ((c.heard ctx).transmit ctx p.ackReset).value with sender := c.sender.startOver })
    rfl rfl (.inr rfl)
  refine ⟨_, ?_, proceeds, data⟩
  rw [packets_transmit known.1.ackReset]
  rfl

/-- The answer to a request to start over is of no meaning without one. -/
theorem onPacket_ackReset (ctx : Context) (c : Channel) (kind : p.header.kind = .ackReset) :
    (c.onPacket ctx p).value.sender = c.sender ∧
      (c.onPacket ctx p).value.receiver =
        (if c.receiver.pendingReset.isSome then {} else c.receiver) ∧
      packets (c.onPacket ctx p).log = [] ∧ payloads (c.onPacket ctx p).log = [] := by
  rw [onPacket_sender, onPacket_receiver, packets_onPacket, payloads_onPacket]
  have pending : (c.heard ctx).receiver.pendingReset = c.receiver.pendingReset := rfl
  simp only [dispatch, kind, onAckReset, pending]
  split
  · exact ⟨rfl, rfl, rfl, rfl⟩
  · exact ⟨rfl, rfl, rfl, rfl⟩

theorem onPacket_ping (ctx : Context) (known : (Op.packet p).Sound c.key) (kind : p.header.kind = .ping) :
    (c.onPacket ctx p).value.sender = c.sender ∧ (c.onPacket ctx p).value.receiver = c.receiver ∧
      packets (c.onPacket ctx p).log = [p.ackPing] ∧ payloads (c.onPacket ctx p).log = [] := by
  rw [onPacket_sender, onPacket_receiver, packets_onPacket, payloads_onPacket]
  simp only [dispatch, kind]
  exact ⟨rfl, rfl, packets_transmit known.1.ackPing, rfl⟩

theorem onPacket_ackPing (ctx : Context) (c : Channel) (kind : p.header.kind = .ackPing) :
    (c.onPacket ctx p).value.sender = c.sender ∧ (c.onPacket ctx p).value.receiver = c.receiver ∧
      packets (c.onPacket ctx p).log = [] ∧ payloads (c.onPacket ctx p).log = [] := by
  rw [onPacket_sender, onPacket_receiver, packets_onPacket, payloads_onPacket]
  simp only [dispatch, kind]
  refine ⟨rfl, rfl, packets_eq_nil fun e logged => ?_, payloads_eq_nil fun e logged => ?_⟩
  · obtain ⟨rtt, rfl⟩ := mem_onAckPing_log logged
    rfl
  · obtain ⟨rtt, rfl⟩ := mem_onAckPing_log logged
    rfl

/-- Acknowledgements and requests to start over leave the receive direction alone. -/
theorem onPacket_sending (ctx : Context) (sound : c.Sound) (known : (Op.packet p).Sound c.key)
    (kind : p.header.kind = .ack ∨ p.header.kind = .reset) :
    (c.onPacket ctx p).value.receiver = c.receiver ∧
      (∀ q ∈ packets (c.onPacket ctx p).log, q.header.kind ≠ .ack ∧ q.header.kind ≠ .reset) ∧
      payloads (c.onPacket ctx p).log = [] := by
  rcases kind with kind | kind
  · rw [onPacket_receiver, packets_onPacket, payloads_onPacket]
    simp only [dispatch, kind]
    have counted : (c.heard ctx).Sound := sound.heard ctx
    unfold onAck
    dsimp only
    split
    · exact ⟨rfl, nofun, rfl⟩
    · next entry unacked found =>
      refine ⟨flush_receiver _, fun q mem => ?_, payloads_release _ _⟩
      have data : q.header.kind = .data :=
        packets_flush (by exact counted.channel_le) (by exact counted.parked) mem
      rw [data]
      exact ⟨nofun, nofun⟩
  · refine ⟨?_, fun q mem => ?_, ?_⟩
    · rw [onPacket_receiver]
      simp only [dispatch, kind]
      exact flush_receiver _
    · obtain ⟨sent, answer, _, data⟩ := onPacket_reset ctx sound known kind
      rw [answer] at mem
      rcases List.mem_cons.mp mem with rfl | later
      · exact ⟨nofun, nofun⟩
      · rw [data q later]
        exact ⟨nofun, nofun⟩
    · rw [payloads_onPacket]
      simp only [dispatch, kind, onReset, Logged.log_bind, payloads_append]
      rw [flush, payloads_release]
      rfl

end ReliableDatagram.Channel
