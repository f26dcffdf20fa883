import ReliableDatagram.Proofs.Channel.Sound

/-!
# What a move does to each direction

The send direction of a channel knows five kinds of moves, and the receive direction knows eight.
Which kind a move is in one direction says nothing about the other direction, so that an invariant
of a stream of data can be carried through both of its ends separately.
-/

namespace ReliableDatagram.Channel

def packets (log : List Effect) : List Packet := log.filterMap Effect.packet?

/-- The data packets that a log sends for the first time. -/
def launched (log : List Effect) : List Packet :=
  (log.filterMap Effect.launch?).filter (·.header.kind == .data)

def payloads (log : List Effect) : List Bytes := log.filterMap Effect.payload?

@[simp] theorem packets_nil : packets [] = [] := rfl

@[simp] theorem packets_append (log log' : List Effect) :
    packets (log ++ log') = packets log ++ packets log' := List.filterMap_append

@[simp] theorem launched_nil : launched [] = [] := rfl

@[simp] theorem launched_append (log log' : List Effect) :
    launched (log ++ log') = launched log ++ launched log' := by simp [launched]

@[simp] theorem payloads_nil : payloads [] = [] := rfl

@[simp] theorem payloads_append (log log' : List Effect) :
    payloads (log ++ log') = payloads log ++ payloads log' := List.filterMap_append

/-- What a move does to the send direction. -/
inductive Outward (ctx : Context) (op : Op) (c : Channel) (log : List Effect) (c' : Channel) :
    List ParkedWrite → Prop
  | rest (nextId : c'.sender.nextId = c.sender.nextId)
      (contents : c'.sender.unacked.contents = c.sender.unacked.contents)
      (parked : c'.sender.parked = c.sender.parked) (first : launched log = [])
      (again : ∀ p ∈ packets log, p.header.kind = .data →
        ∃ id, (id, p.encode) ∈ c.sender.unacked.contents) : Outward ctx op c log c' []
  | park {w : ParkedWrite} (nextId : c'.sender.nextId = c.sender.nextId)
      (contents : c'.sender.unacked.contents = c.sender.unacked.contents)
      (parked : c'.sender.parked = c.sender.parked ++ [w]) (silent : log = []) :
      Outward ctx op c log c' [w]
  | send {w : ParkedWrite} {p : Packet} (first : c.sender.parked = w :: c'.sender.parked)
      (room : c.sender.canSend = true)
      (packet : p = .data c.key.channel c.sender.nextId ctx.timestamp w.payload)
      (wellFormed : p.WellFormed) (nextId : c'.sender.nextId = c.sender.nextId.next)
      (contents : c'.sender.unacked.contents =
        c.sender.unacked.contents ++ [(c.sender.nextId, p.encode)])
      (sent : packets log = [p]) (new : launched log = [p]) : Outward ctx op c log c' []
  | settle {p : Packet} (asked : op = .packet p) (kind : p.header.kind = .ack)
      (nextId : c'.sender.nextId = c.sender.nextId)
      (contents : c'.sender.unacked.contents =
        c.sender.unacked.contents.eraseP (·.1 == p.header.id))
      (parked : c'.sender.parked = c.sender.parked) (silent : log = []) : Outward ctx op c log c' []
  | startOver {p : Packet} (asked : op = .packet p)
      (cause : p.header.kind = .reset ∨ p.header.kind = .data ∧ c.placeOf ctx p = .restart)
      (nextId : c'.sender.nextId = .streamStart) (contents : c'.sender.unacked.contents = [])
      (parked : c'.sender.parked = c.sender.parked) (tells : log = [.emit (.resetLocal c.key)]) :
      Outward ctx op c log c' []

/-- What a move does to the receive direction. -/
inductive Inward (ctx : Context) (op : Op) (c : Channel) (log : List Effect) (c' : Channel) : Prop
  | rest (expected : c'.receiver.expected = c.receiver.expected)
      (startedAt : c'.receiver.startedAt = c.receiver.startedAt)
      (early : c'.receiver.early = c.receiver.early)
      (pending : c'.receiver.pendingReset.isSome = c.receiver.pendingReset.isSome)
      (silent : payloads log = []) (noAck : ∀ p ∈ packets log, p.header.kind ≠ .ack)
  | accept {p : Packet} (asked : op = .packet p) (kind : p.header.kind = .data)
      (place : c.placeOf ctx p = .next)
      (receiver : c'.receiver = (c.receiver.accept p.header.id p.payload).2)
      (delivers : payloads log = (c.receiver.accept p.header.id p.payload).1)
      (answer : packets log = [p.ack])
  | acceptStart {p : Packet} (asked : op = .packet p) (kind : p.header.kind = .data)
      (place : c.placeOf ctx p = .start)
      (receiver : c'.receiver =
        ((c.receiver.start p.header.timestamp).accept p.header.id p.payload).2)
      (delivers : payloads log =
        ((c.receiver.start p.header.timestamp).accept p.header.id p.payload).1)
      (answer : packets log = [p.ack])
  | restart {p : Packet} (asked : op = .packet p) (kind : p.header.kind = .data)
      (place : c.placeOf ctx p = .restart) (receiver : c'.receiver = {})
      (tells : log = [.emit (.resetLocal c.key)])
  | confirm {p : Packet} (asked : op = .packet p) (kind : p.header.kind = .data)
      (place : c.placeOf ctx p = .repeatedStart ∨ c.placeOf ctx p = .buffered ∨
        c.placeOf ctx p = .delivered)
      (receiver : c'.receiver = c.receiver) (silent : payloads log = [])
      (answer : packets log = [p.ack])
  | keep {p : Packet} (asked : op = .packet p) (kind : p.header.kind = .data)
      (place : c.placeOf ctx p = .early)
      (receiver : c'.receiver = c.receiver.keep p.header.id p.payload)
      (silent : payloads log = []) (answer : packets log = [p.ack])
  | requestReset {p : Packet} (asked : op = .packet p) (kind : p.header.kind = .data)
      (place : c.placeOf ctx p = .unplaced) (expected : c'.receiver.expected = c.receiver.expected)
      (early : c'.receiver.early = c.receiver.early) (silent : payloads log = [])
  | resetAnswered {p : Packet} (asked : op = .packet p) (kind : p.header.kind = .ackReset)
      (pending : c.receiver.pendingReset.isSome) (receiver : c'.receiver = {})
      (silent : payloads log = [])

variable {ctx : Context} {op : Op} {c c' : Channel} {log : List Effect} {ws : List ParkedWrite}

theorem packets_send (target : SocketAddr) {p : Packet} (sound : p.WellFormed) :
    packets [.send target p.encode] = [p] := by
  simp [packets, Effect.packet?_send target sound]

theorem packets_eq_nil (silent : ∀ e ∈ log, e.packet? = none) : packets log = [] :=
  List.filterMap_eq_nil_iff.mpr silent

theorem payloads_eq_nil (silent : ∀ e ∈ log, e.payload? = none) : payloads log = [] :=
  List.filterMap_eq_nil_iff.mpr silent

theorem launched_eq_nil (silent : ∀ e ∈ log, e.launch? = none) : launched log = [] := by
  rw [launched, List.filterMap_eq_nil_iff.mpr silent]
  rfl

theorem packets_checkConnected (c : Channel) : packets c.checkConnected.log = [] :=
  packets_eq_nil fun e logged => by
    rw [mem_checkConnected_log c logged]
    rfl

theorem payloads_checkConnected (c : Channel) : payloads c.checkConnected.log = [] :=
  payloads_eq_nil fun e logged => by
    rw [mem_checkConnected_log c logged]
    rfl

theorem launched_checkConnected (c : Channel) : launched c.checkConnected.log = [] :=
  launched_eq_nil fun e logged => by
    rw [mem_checkConnected_log c logged]
    rfl

theorem payloads_data (key : Key) (delivered : List Bytes) :
    payloads (delivered.map fun payload => .emit (.data key payload)) = delivered := by
  simp [payloads, List.filterMap_map, Function.comp_def, Effect.payload?]

theorem packets_data (key : Key) (delivered : List Bytes) :
    packets (delivered.map fun payload => .emit (.data key payload)) = [] := by
  simp [packets, List.filterMap_map, Function.comp_def]

theorem launched_data (key : Key) (delivered : List Bytes) :
    launched (delivered.map fun payload => .emit (.data key payload)) = [] := by
  simp [launched, List.filterMap_map, Function.comp_def]

theorem launched_send (target : SocketAddr) {p : Packet} (sound : p.WellFormed) :
    launched [.send target p.encode] = if p.header.kind = .data then [p] else [] := by
  simp [launched, Effect.launch?_send target sound, List.filter_cons]

section Destroy

theorem datagram?_of_mem_destroy {reason : DisconnectReason} {e : Effect}
    (logged : e ∈ (c.destroy reason).log) :
    e.datagram? = none := by
  rcases mem_destroy_log logged with ⟨w, _, rfl⟩ | rfl <;> rfl

theorem launched_destroy (c : Channel) (reason : DisconnectReason) :
    launched (c.destroy reason).log = [] :=
  launched_eq_nil fun _ logged => Effect.launch?_eq_none (datagram?_of_mem_destroy logged)

theorem packets_destroy (c : Channel) (reason : DisconnectReason) :
    packets (c.destroy reason).log = [] :=
  packets_eq_nil fun _ logged => Effect.packet?_eq_none (datagram?_of_mem_destroy logged)

theorem payloads_destroy (c : Channel) (reason : DisconnectReason) :
    payloads (c.destroy reason).log = [] :=
  payloads_eq_nil fun _ logged => by rcases mem_destroy_log logged with ⟨w, _, rfl⟩ | rfl <;> rfl

end Destroy

section Accept

variable {p : Packet}

theorem packets_accept (sound : p.WellFormed) : packets (c.accept ctx p).log = [p.ack] := by
  rw [log_accept, ← List.singleton_append, packets_append, packets_append, packets_send _ sound.ack,
    packets_checkConnected, packets_data]
  rfl

theorem payloads_accept :
    payloads (c.accept ctx p).log = (c.receiver.accept p.header.id p.payload).1 := by
  rw [log_accept, ← List.singleton_append, payloads_append, payloads_append,
    payloads_checkConnected, payloads_data]
  rfl

theorem launched_accept (sound : p.WellFormed) : launched (c.accept ctx p).log = [] := by
  rw [log_accept, ← List.singleton_append, launched_append, launched_append,
    launched_send _ sound.ack, launched_checkConnected, launched_data]
  rfl

end Accept

section Parts

variable {p : Packet}

theorem packets_transmit (sound : p.WellFormed) : packets (c.transmit ctx p).log = [p] :=
  packets_send _ sound

theorem launched_transmit (sound : p.WellFormed) (inert : p.header.kind ≠ .data) :
    launched (c.transmit ctx p).log = [] :=
  (launched_send _ sound).trans (if_neg inert)

theorem log_sendWrite_packet {w : ParkedWrite}
    (packet : p = .data c.key.channel c.sender.nextId ctx.timestamp w.payload) :
    (c.sendWrite ctx w).log =
      [.send c.key.addr p.encode] ++ [.reply w.ticket (.ok w.payload.length)] := by
  rw [packet]
  rfl

theorem packet_of_mem_resendData {deadline : Nat} (sound : c.Sound) {e : Effect}
    (logged : e ∈ (c.resendData ctx deadline).log) :
    e.launch? = none ∧ e.payload? = none ∧
      ∃ id p, (id, p.encode) ∈ c.sender.unacked.contents ∧ p.header.kind = .data ∧
        e.packet? = some p := by
  obtain ⟨⟨id, bytes⟩, held, rfl⟩ := mem_resendData_log _ _ logged
  obtain ⟨p, same, wellFormed, _, kind⟩ := sound.unacked _ held
  obtain rfl : bytes = p.encode := same
  exact ⟨rfl, rfl, id, p, held, kind, Effect.packet?_resend _ wellFormed⟩

theorem packet_of_mem_resendReset {deadline : Nat} (sound : c.Sound) {e : Effect}
    (logged : e ∈ (c.resendReset ctx deadline).log) :
    e.launch? = none ∧ e.payload? = none ∧
      ∃ p : Packet, p.header.kind = .reset ∧ e.packet? = some p := by
  obtain ⟨r, pending, rfl⟩ := mem_resendReset_log _ _ _ logged
  obtain ⟨p, same, wellFormed, _, kind⟩ := sound.pendingReset r pending
  refine ⟨rfl, rfl, p, kind, ?_⟩
  rw [same]
  exact Effect.packet?_resend _ wellFormed

end Parts

theorem Says.kind {q : Packet} (speech : Says c ctx op q) :
    q.header.kind ≠ .data ∧ q.header.kind ≠ .ack ∧ q.header.kind ≠ .reset := by
  cases speech <;> exact ⟨nofun, nofun, nofun⟩

theorem Outward.of_inert (nextId : c'.sender.nextId = c.sender.nextId)
    (contents : c'.sender.unacked.contents = c.sender.unacked.contents)
    (parked : c'.sender.parked = c.sender.parked) (first : launched log = [])
    (inert : ∀ p ∈ packets log, p.header.kind ≠ .data) : Outward ctx op c log c' [] :=
  .rest nextId contents parked first fun p sent data => absurd data (inert p sent)

theorem outward_transmit {p : Packet} {d : Channel} (wellFormed : p.WellFormed)
    (inert : p.header.kind ≠ .data) (same : d.sender = c.sender) :
    Outward ctx op c (d.transmit ctx p).log (d.transmit ctx p).value [] := by
  have same : (d.transmit ctx p).value.sender = c.sender := same
  refine .of_inert (by rw [same]) (by rw [same]) (by rw [same]) (launched_transmit wellFormed inert)
    fun q sent => ?_
  rw [packets_transmit wellFormed] at sent
  rcases List.mem_singleton.mp sent with rfl
  exact inert

theorem outward_accept {p : Packet} {d : Channel} (wellFormed : p.WellFormed)
    (same : d.sender = c.sender) :
    Outward ctx op c (d.accept ctx p).log (d.accept ctx p).value [] := by
  refine .of_inert (by simp [same]) (by simp [same]) (by simp [same]) (launched_accept wellFormed)
    fun q sent => ?_
  rw [packets_accept wellFormed] at sent
  rcases List.mem_singleton.mp sent with rfl
  nofun

theorem outward_requestReset (sound : c.Sound) (idle : c.receiver.pendingReset = none) :
    Outward ctx op c (c.requestReset ctx).log (c.requestReset ctx).value [] := by
  have wellFormed : (Packet.reset c.key.channel ctx.timestamp).WellFormed :=
    Packet.wellFormed_reset sound.channel_le
  rw [requestReset_idle idle, ← List.singleton_append]
  refine .of_inert rfl rfl rfl ?_ fun q sent => ?_
  · rw [launched_append, launched_send _ wellFormed]
    rfl
  · rw [packets_append, packets_send _ wellFormed] at sent
    rcases List.mem_singleton.mp sent with rfl
    nofun

section Send

variable {w : ParkedWrite} {rest : List ParkedWrite}

theorem wellFormed_first (sound : c.Sound) (first : c.sender.parked = w :: rest) :
    (Packet.data c.key.channel c.sender.nextId ctx.timestamp w.payload).WellFormed :=
  Packet.wellFormed_data sound.channel_le
    (sound.parked w (by rw [first]; exact List.mem_cons_self))

theorem packets_sendWrite (sound : c.Sound) (first : c.sender.parked = w :: rest) :
    packets ((c.withParked rest).sendWrite ctx w).log =
      [.data c.key.channel c.sender.nextId ctx.timestamp w.payload] := by
  have log : ((c.withParked rest).sendWrite ctx w).log = _ := log_sendWrite_packet rfl
  rw [log, packets_append]
  exact congrArg (· ++ []) (packets_send _ (wellFormed_first sound first))

theorem outward_send (sound : c.Sound) (first : c.sender.parked = w :: rest)
    (room : c.sender.canSend = true) :
    Outward ctx op c ((c.withParked rest).sendWrite ctx w).log
      ((c.withParked rest).sendWrite ctx w).value [] := by
  have wellFormed : (Packet.data c.key.channel c.sender.nextId ctx.timestamp w.payload).WellFormed :=
    wellFormed_first sound first
  have log : ((c.withParked rest).sendWrite ctx w).log = _ := log_sendWrite_packet rfl
  refine .send first room rfl wellFormed rfl (SendQueue.contents_push _ _)
    (packets_sendWrite sound first) ?_
  rw [log, launched_append]
  exact congrArg (· ++ []) (launched_send _ wellFormed)

end Send

theorem Move.outward (move : Move ctx op c log ws c') (sound : c.Sound)
    (asked : op.Sound c.key) : Outward ctx op c log c' ws := by
  cases move with
  | say speech => exact outward_transmit (speech.speaks sound asked).1 speech.kind.1 rfl
  | park => exact .park rfl rfl rfl rfl
  | send first room => exact outward_send sound first room
  | settle kind found => exact .settle rfl kind rfl (SendQueue.contents_remove? found) rfl rfl
  | startOver kind => exact .startOver rfl (.inl kind) rfl rfl rfl rfl
  | restart kind place => exact .startOver rfl (.inr ⟨kind, place⟩) rfl rfl rfl rfl
  | accept => exact outward_accept asked.1 rfl
  | acceptStart => exact outward_accept asked.1 rfl
  | confirm => exact outward_transmit asked.1.ack nofun rfl
  | keep => exact outward_transmit asked.1.ack nofun rfl
  | requestReset _ _ idle => exact outward_requestReset sound idle
  | resendData =>
    refine .rest (by simp) (by simp) (by simp)
      (launched_eq_nil fun e logged => (packet_of_mem_resendData sound logged).1) ?_
    intro p sent _
    obtain ⟨e, logged, packet⟩ := List.mem_filterMap.mp sent
    obtain ⟨_, _, id, q, held, _, packet'⟩ := packet_of_mem_resendData sound logged
    obtain rfl : q = p := Option.some.inj (packet'.symm.trans packet)
    exact ⟨id, held⟩
  | resendReset =>
    refine .of_inert (by simp) (by simp) (by simp)
      (launched_eq_nil fun e logged => (packet_of_mem_resendReset sound logged).1) ?_
    intro p sent
    obtain ⟨e, logged, packet⟩ := List.mem_filterMap.mp sent
    obtain ⟨_, _, q, kind, packet'⟩ := packet_of_mem_resendReset sound logged
    obtain rfl : q = p := Option.some.inj (packet'.symm.trans packet)
    rw [kind]
    nofun
  | measure =>
    refine .of_inert rfl rfl rfl (launched_eq_nil fun e logged => ?_) ?_
    · obtain ⟨rtt, rfl⟩ := mem_onAckPing_log logged
      rfl
    · rw [packets_eq_nil fun e logged => ?_]
      · nofun
      · obtain ⟨rtt, rfl⟩ := mem_onAckPing_log logged
        rfl
  | tune => exact .of_inert (by simp) (by simp) (by simp) rfl nofun
  | _ => exact .of_inert rfl rfl rfl rfl nofun

theorem Inward.of_same (same : c'.receiver = c.receiver) (silent : payloads log = [])
    (noAck : ∀ p ∈ packets log, p.header.kind ≠ .ack) : Inward ctx op c log c' :=
  .rest (by rw [same]) (by rw [same]) (by rw [same]) (by rw [same]) silent noAck

theorem inward_resendReset (sound : c.Sound) (deadline : Nat) :
    Inward ctx op c (c.resendReset ctx deadline).log (c.resendReset ctx deadline).value.1 := by
  have silent : payloads (c.resendReset ctx deadline).log = [] :=
    payloads_eq_nil fun e logged => (packet_of_mem_resendReset sound logged).2.1
  have noAck : ∀ p ∈ packets (c.resendReset ctx deadline).log, p.header.kind ≠ .ack := by
    intro p sent
    obtain ⟨e, logged, packet⟩ := List.mem_filterMap.mp sent
    obtain ⟨_, _, q, kind, packet'⟩ := packet_of_mem_resendReset sound logged
    obtain rfl : q = p := Option.some.inj (packet'.symm.trans packet)
    rw [kind]
    nofun
  rcases resendReset_value ctx c deadline with same | ⟨r, attempts, pending, same⟩
  · exact .of_same (by rw [same]) silent noAck
  · exact .rest (by rw [same]) (by rw [same]) (by rw [same]) (by rw [same, pending]; rfl) silent
      noAck

theorem Move.inward (move : Move ctx op c log ws c') (sound : c.Sound)
    (asked : op.Sound c.key) : Inward ctx op c log c' := by
  cases move with
  | say speech =>
    refine .of_same rfl rfl fun q sent => ?_
    rw [packets_transmit (speech.speaks sound asked).1] at sent
    rcases List.mem_singleton.mp sent with rfl
    exact speech.kind.2.1
  | send first =>
    refine .of_same rfl rfl fun q sent => ?_
    rw [packets_sendWrite sound first] at sent
    rcases List.mem_singleton.mp sent with rfl
    nofun
  | restart kind place => exact .restart rfl kind place rfl rfl
  | accept kind place =>
    exact .accept rfl kind place (accept_receiver _ _) payloads_accept (packets_accept asked.1)
  | acceptStart kind place =>
    exact .acceptStart rfl kind place (acceptStart_receiver _ _) payloads_accept
      (packets_accept asked.1)
  | confirm kind place => exact .confirm rfl kind place rfl rfl (packets_transmit asked.1.ack)
  | keep kind place => exact .keep rfl kind place rfl rfl (packets_transmit asked.1.ack)
  | requestReset kind place idle =>
    rw [requestReset_idle idle]
    exact .requestReset rfl kind place rfl rfl rfl
  | resetAnswered kind pending => exact .resetAnswered rfl kind pending rfl rfl
  | resendData =>
    refine .of_same (by simp)
      (payloads_eq_nil fun e logged => (packet_of_mem_resendData sound logged).2.1) ?_
    intro p sent
    obtain ⟨e, logged, packet⟩ := List.mem_filterMap.mp sent
    obtain ⟨_, _, id, q, _, kind, packet'⟩ := packet_of_mem_resendData sound logged
    obtain rfl : q = p := Option.some.inj (packet'.symm.trans packet)
    rw [kind]
    nofun
  | resendReset => exact inward_resendReset sound _
  | measure =>
    refine .of_same rfl (payloads_eq_nil fun e logged => ?_) ?_
    · obtain ⟨rtt, rfl⟩ := mem_onAckPing_log logged
      rfl
    · rw [packets_eq_nil fun e logged => ?_]
      · nofun
      · obtain ⟨rtt, rfl⟩ := mem_onAckPing_log logged
        rfl
  | tune => exact .of_same (by simp) rfl nofun
  | _ => exact .of_same rfl rfl nofun

theorem accept_resets_nothing {p : Packet} {e : Effect} (logged : e ∈ (c.accept ctx p).log) :
    e.isReset = false := by
  rcases mem_accept_log c p logged with rfl | rfl | ⟨payload, rfl⟩ <;> rfl

/-- The only causes of a reset: the peer asks for it, answers a request, starts another stream, or
goes on with a stream that is not known here. -/
theorem Move.reset_cause (move : Move ctx op c log ws c') {e : Effect} (logged : e ∈ log)
    (reset : e.isReset = true) :
    ∃ p, op = .packet p ∧
      (p.header.kind = .reset ∨
        p.header.kind = .ackReset ∧ c.receiver.pendingReset.isSome ∨
        p.header.kind = .data ∧
          (c.placeOf ctx p = .restart ∨ c.placeOf ctx p = .unplaced)) := by
  have other (same : e.isReset = false) : False := by
    rw [same] at reset
    cases reset
  cases move with
  | startOver kind => exact ⟨_, rfl, .inl kind⟩
  | restart kind place => exact ⟨_, rfl, .inr (.inr ⟨kind, .inl place⟩)⟩
  | requestReset kind place => exact ⟨_, rfl, .inr (.inr ⟨kind, .inr place⟩)⟩
  | resetAnswered kind pending => exact ⟨_, rfl, .inr (.inl ⟨kind, pending⟩)⟩
  | accept => exact (other (accept_resets_nothing logged)).elim
  | acceptStart => exact (other (accept_resets_nothing logged)).elim
  | connect | refuse | say | confirm | keep =>
    rcases List.mem_singleton.mp logged with rfl
    cases reset
  | send =>
    simp only [log_sendWrite, List.mem_cons, List.not_mem_nil, or_false] at logged
    rcases logged with rfl | rfl <;> cases reset
  | measure =>
    obtain ⟨rtt, rfl⟩ := mem_onAckPing_log logged
    cases reset
  | resendData =>
    obtain ⟨x, _, rfl⟩ := mem_resendData_log _ _ logged
    cases reset
  | resendReset =>
    obtain ⟨r, _, rfl⟩ := mem_resendReset_log _ _ _ logged
    cases reset
  | _ => cases logged

/-- What makes a channel send a packet of the reset handshake. -/
def Handshakes (ctx : Context) (op : Op) (c : Channel) : Packet.Kind → Prop
  | .reset =>
    op = .tick ∧ c.receiver.pendingReset.isSome = true ∨
      ∃ q, op = .packet q ∧ q.header.kind = .data ∧ c.placeOf ctx q = .unplaced
  | .ackReset => ∃ q, op = .packet q ∧ q.header.kind = .reset
  | _ => True

theorem Says.handshakes {q : Packet} (speech : Says c ctx op q) :
    Handshakes ctx op c q.header.kind := by
  cases speech with
  | ackReset kind => exact ⟨_, rfl, kind⟩
  | ackPing => trivial
  | ping => trivial

theorem Move.handshakes (move : Move ctx op c log ws c') (sound : c.Sound)
    (asked : op.Sound c.key) {p : Packet} (sent : p ∈ packets log) :
    Handshakes ctx op c p.header.kind := by
  have acks (q : Packet) (answer : packets log = [q.ack]) : Handshakes ctx op c p.header.kind := by
    rw [answer] at sent
    rcases List.mem_singleton.mp sent with rfl
    trivial
  cases move with
  | say speech =>
    rw [packets_transmit (speech.speaks sound asked).1] at sent
    rcases List.mem_singleton.mp sent with rfl
    exact speech.handshakes
  | send first =>
    rw [packets_sendWrite sound first] at sent
    rcases List.mem_singleton.mp sent with rfl
    trivial
  | accept => exact acks _ (packets_accept asked.1)
  | acceptStart => exact acks _ (packets_accept asked.1)
  | confirm => exact acks _ (packets_transmit asked.1.ack)
  | keep => exact acks _ (packets_transmit asked.1.ack)
  | @requestReset q _ kind place idle =>
    rw [requestReset_idle idle, ← List.singleton_append, packets_append,
      packets_send _ (Packet.wellFormed_reset sound.channel_le)] at sent
    rcases List.mem_singleton.mp sent with rfl
    exact .inr ⟨q, rfl, kind, place⟩
  | resendData =>
    obtain ⟨e, logged, packet⟩ := List.mem_filterMap.mp sent
    obtain ⟨_, _, id, q, _, kind, packet'⟩ := packet_of_mem_resendData sound logged
    obtain rfl : q = p := Option.some.inj (packet'.symm.trans packet)
    rw [kind]
    trivial
  | resendReset =>
    obtain ⟨e, logged, packet⟩ := List.mem_filterMap.mp sent
    obtain ⟨r, pending, rfl⟩ := mem_resendReset_log _ _ _ logged
    obtain ⟨_, _, q, kind, packet'⟩ := packet_of_mem_resendReset sound logged
    obtain rfl : q = p := Option.some.inj (packet'.symm.trans packet)
    rw [kind]
    exact .inl ⟨rfl, by rw [pending]; rfl⟩
  | measure =>
    rw [packets_eq_nil fun e logged => ?_] at sent
    · cases sent
    · obtain ⟨rtt, rfl⟩ := mem_onAckPing_log logged
      rfl
  | _ => cases sent

end ReliableDatagram.Channel
