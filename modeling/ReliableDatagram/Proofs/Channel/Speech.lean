import ReliableDatagram.Proofs.Channel.Answers

/-!
# The events of a channel

A channel reports signals while it is fresh, and data only once it is connected. The report of the
connection stands between the two: it comes as soon as packets went in both directions, and
`Settled` says that between two operations this is just as long ago as the first packet was heard.
-/

namespace ReliableDatagram

def events (log : List Effect) : List Event := log.filterMap Effect.event?

@[simp] theorem events_append (log log' : List Effect) :
    events (log ++ log') = events log ++ events log' := List.filterMap_append

/-- The events that do not depend on a connection. -/
inductive Event.Signal (key : Key) : Event → Prop
  | resetSent : Signal key (.resetSent key)
  | resetLocal : Signal key (.resetLocal key)
  | gotAckPing {rtt : Nat} : Signal key (.gotAckPing key rtt)

/-- The events of a connection, its two ends apart. -/
inductive Event.Talk (key : Key) : Event → Prop
  | signal {e : Event} (signal : e.Signal key) : Talk key e
  | data {payload : Bytes} : Talk key (.data key payload)

namespace Event

variable {key : Key} {e : Event}

theorem Signal.key?_eq (signal : e.Signal key) : e.key? = some key := by
  cases signal <;> rfl

theorem Talk.key?_eq (talk : e.Talk key) : e.key? = some key := by
  cases talk with
  | signal signal => exact signal.key?_eq
  | data => rfl

theorem Talk.ne_connected (talk : e.Talk key) : e ≠ .connected key := by
  cases talk with
  | signal signal => cases signal <;> nofun
  | data => nofun

end Event

namespace Channel

/-- What a channel may report while it goes from one phase to another. -/
inductive Speech (key : Key) : Phase → List Event → Phase → Prop
  | quiet {early : List Event} (signals : ∀ e ∈ early, e.Signal key) :
      Speech key .fresh early .fresh
  | greet {early late : List Event} (signals : ∀ e ∈ early, e.Signal key)
      (talk : ∀ e ∈ late, e.Talk key) :
      Speech key .fresh (early ++ .connected key :: late) .connected
  | talk {late : List Event} (talk : ∀ e ∈ late, e.Talk key) :
      Speech key .connected late .connected

namespace Speech

variable {key : Key} {phase phase' phase'' : Phase} {es es' : List Event}

theorem ne_closed (speech : Speech key phase es phase') : phase' ≠ .closed := by
  cases speech <;> nofun

theorem stays_connected (speech : Speech key .connected es phase) : phase = .connected := by
  cases speech
  rfl

theorem signals (alive : phase ≠ .closed) (signals : ∀ e ∈ es, e.Signal key) :
    Speech key phase es phase := by
  cases phase with
  | fresh => exact .quiet signals
  | connected => exact .talk fun e mem => .signal (signals e mem)
  | closed => exact absurd rfl alive

theorem silence (alive : phase ≠ .closed) : Speech key phase [] phase :=
  signals alive nofun

theorem append (first : Speech key phase es phase') (second : Speech key phase' es' phase'') :
    Speech key phase (es ++ es') phase'' := by
  cases first with
  | quiet signals =>
    cases second with
    | quiet signals' => exact .quiet (List.forall_mem_append.mpr ⟨signals, signals'⟩)
    | greet signals' talk =>
      rw [← List.append_assoc]
      exact .greet (List.forall_mem_append.mpr ⟨signals, signals'⟩) talk
  | greet signals talk =>
    cases second with
    | talk talk' =>
      rw [List.append_assoc, List.cons_append]
      exact .greet signals (List.forall_mem_append.mpr ⟨talk, talk'⟩)
  | talk talk =>
    cases second with
    | talk talk' => exact .talk (List.forall_mem_append.mpr ⟨talk, talk'⟩)

theorem key?_eq (speech : Speech key phase es phase') : ∀ e ∈ es, e.key? = some key := by
  cases speech with
  | quiet signals => exact fun e mem => (signals e mem).key?_eq
  | greet signals talk =>
    intro e mem
    rcases List.mem_append.mp mem with early | late
    · exact (signals e early).key?_eq
    · rcases List.mem_cons.mp late with rfl | late
      · rfl
      · exact (talk e late).key?_eq
  | talk talk => exact fun e mem => (talk e mem).key?_eq

/-- The connection is reported on the way from one phase to the other. -/
theorem mem_connected_iff (speech : Speech key phase es phase') :
    .connected key ∈ es ↔ phase = .fresh ∧ phase' = .connected := by
  cases speech with
  | quiet signals =>
    refine iff_of_false (fun mem => ?_) nofun
    exact (Event.Talk.signal (signals _ mem)).ne_connected rfl
  | greet => simp
  | talk talk => exact iff_of_false (fun mem => (talk _ mem).ne_connected rfl) nofun

end Speech

variable {ctx : Context} {op : Op} {c c' : Channel} {log : List Effect} {ws : List ParkedWrite}

section Flags

theorem checkConnected_hasReceived (c : Channel) :
    c.checkConnected.value.hasReceived = c.hasReceived := by
  unfold checkConnected
  split <;> rfl

theorem checkConnected_hasSent (c : Channel) : c.checkConnected.value.hasSent = c.hasSent := by
  unfold checkConnected
  split <;> rfl

theorem speech_checkConnected (alive : c.phase ≠ .closed) :
    Speech c.key c.phase (events c.checkConnected.log) c.checkConnected.value.phase := by
  unfold checkConnected
  split
  · next ready =>
    rw [ready.1]
    exact @Speech.greet _ [] [] nofun nofun
  · exact .silence alive

/-- A channel that sent and heard something is connected once it is checked. -/
theorem phase_checkConnected (alive : c.phase ≠ .closed) (sent : c.hasSent = true)
    (heard : c.hasReceived = true) : c.checkConnected.value.phase = .connected := by
  unfold checkConnected
  split
  · rfl
  · next unready =>
    cases phase : c.phase with
    | fresh => exact absurd ⟨phase, sent, heard⟩ unready
    | connected => rfl
    | closed => exact absurd phase alive

theorem accept_hasReceived (p : Packet) : (c.accept ctx p).value.hasReceived = c.hasReceived :=
  checkConnected_hasReceived (c.transmit ctx p.ack).value

theorem accept_hasSent (p : Packet) : (c.accept ctx p).value.hasSent = true :=
  checkConnected_hasSent (c.transmit ctx p.ack).value

/-- Data is delivered on a connection, which its acknowledgement completes. -/
theorem speech_accept (alive : c.phase ≠ .closed) (heard : c.hasReceived = true) (p : Packet) :
    Speech c.key c.phase (events (c.accept ctx p).log) (c.accept ctx p).value.phase := by
  have greeting : Speech c.key c.phase (events (c.transmit ctx p.ack).value.checkConnected.log)
      (c.transmit ctx p.ack).value.checkConnected.value.phase :=
    speech_checkConnected (c := (c.transmit ctx p.ack).value) alive
  have connected : (c.transmit ctx p.ack).value.checkConnected.value.phase = .connected :=
    phase_checkConnected (c := (c.transmit ctx p.ack).value) alive rfl heard
  have phase : (c.accept ctx p).value.phase = .connected := connected
  have delivered (payloads : List Bytes) :
      Speech c.key .connected
        (events (payloads.map fun payload => .emit (.data c.key payload))) .connected := by
    refine .talk fun e mem => ?_
    obtain ⟨x, logged, seen⟩ := List.mem_filterMap.mp mem
    obtain ⟨payload, _, rfl⟩ := List.mem_map.mp logged
    obtain rfl := Option.some.inj seen
    exact .data
  rw [connected] at greeting
  rw [log_accept, phase]
  exact events_append _ _ ▸ greeting.append (delivered _)

theorem resendData_phase (deadline : Nat) :
    (c.resendData ctx deadline).value.1.phase = c.phase := by
  unfold resendData
  dsimp only
  split <;> rfl

theorem resendData_hasReceived (deadline : Nat) :
    (c.resendData ctx deadline).value.1.hasReceived = c.hasReceived := by
  unfold resendData
  dsimp only
  split <;> rfl

theorem resendData_hasSent (deadline : Nat) :
    (c.resendData ctx deadline).value.1.hasSent = c.hasSent := by
  unfold resendData
  dsimp only
  split <;> rfl

theorem events_resends (addr : SocketAddr) (entries : List SendQueue.Entry) :
    events (entries.map fun e => .resend addr e.packet) = [] := by
  induction entries with
  | nil => rfl
  | cons e es ih => exact ih

theorem events_resendReset (deadline : Nat) : events (c.resendReset ctx deadline).log = [] := by
  unfold resendReset
  split
  · rfl
  · split
    · rfl
    · split <;> rfl

theorem sends_resendReset (deadline : Nat)
    (sent : (c.resendReset ctx deadline).value.1.hasSent = true) :
    c.hasSent = true ∨ ∃ e ∈ (c.resendReset ctx deadline).log, e.datagram?.isSome := by
  unfold resendReset at sent ⊢
  cases pending : c.receiver.pendingReset with
  | none => exact .inl (by simpa [pending] using sent)
  | some r =>
    by_cases early : ctx.now < r.deadline
    · exact .inl (by simpa [pending, early] using sent)
    · by_cases spent : ctx.config.maxResendAttempts ≤ r.attempts
      · exact .inl (by simpa [pending, early, spent] using sent)
      · simp [early, spent, Effect.datagram?]

end Flags

/-- Only a packet can be heard, and what is heard stays heard. -/
theorem Move.hasReceived (move : Move ctx op c log ws c')
    (known : ∀ p, op = .packet p → c.hasReceived = true) : c'.hasReceived = c.hasReceived := by
  cases move with
  | hear => exact (known _ rfl).symm
  | accept => exact accept_hasReceived _
  | acceptStart => exact accept_hasReceived _
  | requestReset _ _ idle => rw [requestReset_idle idle]
  | resendData => exact resendData_hasReceived _
  | resendReset =>
    rcases resendReset_value ctx c (ctx.now + c.retransmitTimeout ctx.config) with
      same | ⟨r, _, _, same⟩ <;> rw [same]
  | tune =>
    obtain ⟨limit, same⟩ := c.tune_eq ctx.config c.meter.last
    rw [same]
  | _ => rfl

theorem Move.hasSent (move : Move ctx op c log ws c') (sent : c.hasSent = true) :
    c'.hasSent = true := by
  cases move with
  | accept => exact accept_hasSent _
  | acceptStart => exact accept_hasSent _
  | requestReset _ _ idle => rw [requestReset_idle idle]
  | resendData => exact (resendData_hasSent _).trans sent
  | resendReset =>
    rcases resendReset_value ctx c (ctx.now + c.retransmitTimeout ctx.config) with
      same | ⟨r, _, _, same⟩
    · rw [same]
      exact sent
    · rw [same]
  | tune =>
    obtain ⟨limit, same⟩ := c.tune_eq ctx.config c.meter.last
    rw [same]
    exact sent
  | say | send | confirm | keep => rfl
  | _ => exact sent

/-- A channel that notes down that it sent something did send something. -/
theorem Move.sends (move : Move ctx op c log ws c') (sent : c'.hasSent = true) :
    c.hasSent = true ∨ ∃ e ∈ log, e.datagram?.isSome := by
  cases move with
  | accept => exact .inr ⟨_, by rw [log_accept]; exact List.mem_cons_self, rfl⟩
  | acceptStart => exact .inr ⟨_, by rw [Channel.acceptStart, log_accept]; exact List.mem_cons_self, rfl⟩
  | requestReset _ _ idle =>
    rw [requestReset_idle idle]
    exact .inr ⟨_, List.mem_cons_self, rfl⟩
  | resendData => exact .inl ((resendData_hasSent _).symm.trans sent)
  | resendReset => exact sends_resendReset _ sent
  | tune =>
    obtain ⟨limit, same⟩ := c.tune_eq ctx.config c.meter.last
    rw [same] at sent
    exact .inl sent
  | say | send | confirm | keep => exact .inr ⟨_, List.mem_cons_self, rfl⟩
  | _ => exact .inl sent

theorem Move.speech (move : Move ctx op c log ws c') (alive : c.phase ≠ .closed)
    (known : ∀ p, op = .packet p → c.hasReceived = true) :
    Speech c.key c.phase (events log) c'.phase := by
  cases move with
  | connect ready =>
    rw [ready.1]
    exact @Speech.greet _ [] [] nofun nofun
  | measure =>
    refine .signals alive fun e mem => ?_
    obtain ⟨_, logged, seen⟩ := List.mem_filterMap.mp mem
    obtain ⟨rtt, rfl⟩ := mem_onAckPing_log logged
    cases seen
    exact .gotAckPing
  | startOver | restart | resetAnswered =>
    refine .signals alive fun e mem => ?_
    rcases List.mem_singleton.mp mem with rfl
    exact .resetLocal
  | accept => exact speech_accept alive (known _ rfl) _
  | @acceptStart p =>
    exact speech_accept (c := { c with receiver := c.receiver.start p.header.timestamp }) alive
      (known _ rfl) p
  | requestReset _ _ idle =>
    rw [requestReset_idle idle]
    refine .signals alive fun e mem => ?_
    rcases List.mem_singleton.mp mem with rfl
    exact .resetSent
  | resendData =>
    rw [log_resendData, events_resends, resendData_phase]
    exact .silence alive
  | resendReset =>
    rw [events_resendReset]
    rcases resendReset_value ctx c (ctx.now + c.retransmitTimeout ctx.config) with
      same | ⟨r, _, _, same⟩ <;> rw [same] <;> exact .silence alive
  | tune =>
    obtain ⟨limit, same⟩ := c.tune_eq ctx.config c.meter.last
    rw [same]
    exact .silence alive
  | _ => exact .silence alive

/-- Without a packet a channel does not get connected. -/
theorem Move.phase (move : Move ctx op c log ws c') (unheard : c.hasReceived = false)
    (calm : ∀ p, op ≠ .packet p) : c'.phase = c.phase := by
  cases move with
  | connect ready =>
    rw [unheard] at ready
    exact absurd ready.2.2 Bool.false_ne_true
  | resendData => exact resendData_phase _
  | resendReset =>
    rcases resendReset_value ctx c (ctx.now + c.retransmitTimeout ctx.config) with
      same | ⟨r, _, _, same⟩ <;> rw [same]
  | tune =>
    obtain ⟨limit, same⟩ := c.tune_eq ctx.config c.meter.last
    rw [same]
  | hear | settle | strayAck | measure | startOver | accept | acceptStart | restart | confirm
  | keep | drop | requestReset | resetAnswered => exact absurd rfl (calm _)
  | _ => rfl

namespace Moves

theorem hasSent (moves : Moves ctx op c log ws c') (sent : c.hasSent = true) :
    c'.hasSent = true := by
  induction moves with
  | none => exact sent
  | snoc _ last ih => exact last.hasSent ih

theorem sends (moves : Moves ctx op c log ws c') (sent : c'.hasSent = true) :
    c.hasSent = true ∨ ∃ e ∈ log, e.datagram?.isSome := by
  induction moves with
  | none => exact .inl sent
  | snoc _ last ih =>
    rcases last.sends sent with earlier | ⟨e, logged, datagram⟩
    · rcases ih earlier with first | ⟨e, logged, datagram⟩
      · exact .inl first
      · exact .inr ⟨e, List.mem_append_left _ logged, datagram⟩
    · exact .inr ⟨e, List.mem_append_right _ logged, datagram⟩

theorem hasReceived (moves : Moves ctx op c log ws c')
    (known : ∀ p, op = .packet p → c.hasReceived = true) : c'.hasReceived = c.hasReceived := by
  induction moves with
  | none => rfl
  | snoc _ last ih =>
    rw [last.hasReceived fun p brought => ih.trans (known p brought), ih]

theorem speech (moves : Moves ctx op c log ws c') (alive : c.phase ≠ .closed)
    (known : ∀ p, op = .packet p → c.hasReceived = true) :
    Speech c.key c.phase (events log) c'.phase := by
  induction moves with
  | none => exact .silence alive
  | snoc before last ih =>
    have heard := fun p brought => (before.hasReceived known).trans (known p brought)
    rw [events_append]
    exact ih.append (before.key ▸ last.speech ih.ne_closed heard)

theorem phase (moves : Moves ctx op c log ws c') (unheard : c.hasReceived = false)
    (calm : ∀ p, op ≠ .packet p) : c'.phase = c.phase := by
  induction moves with
  | none => rfl
  | snoc before last ih =>
    have still := (before.hasReceived fun p brought => absurd brought (calm p)).trans unheard
    exact (last.phase still calm).trans ih

end Moves

/-- Between two operations: the channel sent something, and it is connected just if it heard
something. -/
structure Settled (c : Channel) : Prop where
  hasSent : c.hasSent = true
  phase : c.phase = if c.hasReceived then .connected else .fresh

theorem Settled.alive (settled : c.Settled) : c.phase ≠ .closed := by
  rw [settled.phase]
  split <;> nofun

/-- What a packet does, up to the news of a connection. -/
theorem speech_dispatch (ctx : Context) (alive : c.phase ≠ .closed) (p : Packet) :
    Speech c.key c.phase (events ((c.heard ctx).dispatch ctx p).log)
      ((c.heard ctx).dispatch ctx p).value.phase :=
  (moves_dispatch (c.heard ctx) p).speech (c := c.heard ctx) alive fun _ _ => rfl

theorem speech_onPacket (alive : c.phase ≠ .closed) (p : Packet) :
    Speech c.key c.phase (events (c.onPacket ctx p).log) (c.onPacket ctx p).value.phase := by
  have before := speech_dispatch ctx alive p
  have key : ((c.heard ctx).dispatch ctx p).value.key = c.key := (moves_dispatch _ p).key
  have news := speech_checkConnected before.ne_closed
  rw [key] at news
  exact events_append _ _ ▸ before.append news

theorem hasReceived_onPacket (p : Packet) : (c.onPacket ctx p).value.hasReceived = true :=
  (checkConnected_hasReceived _).trans
    ((moves_dispatch (c.heard ctx) p).hasReceived fun _ _ => rfl)

theorem hasSent_onPacket (p : Packet) :
    (c.onPacket ctx p).value.hasSent = ((c.heard ctx).dispatch ctx p).value.hasSent :=
  checkConnected_hasSent _

/-- A packet connects a channel that sends or sent something. -/
theorem settled_onPacket (alive : c.phase ≠ .closed) {p : Packet}
    (sent : ((c.heard ctx).dispatch ctx p).value.hasSent = true) :
    (c.onPacket ctx p).value.Settled := by
  refine ⟨(hasSent_onPacket p).trans sent, ?_⟩
  rw [hasReceived_onPacket, if_pos rfl]
  exact phase_checkConnected (speech_dispatch ctx alive p).ne_closed sent
    ((moves_dispatch (c.heard ctx) p).hasReceived fun _ _ => rfl)

theorem Settled.onPacket (settled : c.Settled) (p : Packet) : (c.onPacket ctx p).value.Settled :=
  settled_onPacket settled.alive ((moves_dispatch (c.heard ctx) p).hasSent settled.hasSent)

/-- An operation that brings no packet leaves a settled channel in its phase. -/
theorem Settled.moves (settled : c.Settled) (calm : ∀ p, op ≠ .packet p)
    (moves : Moves ctx op c log ws c') :
    c'.Settled ∧ c'.hasReceived = c.hasReceived ∧ Speech c.key c.phase (events log) c'.phase := by
  have unknown (p : Packet) (brought : op = .packet p) : c.hasReceived = true :=
    absurd brought (calm p)
  have received := moves.hasReceived unknown
  have speech := moves.speech settled.alive unknown
  refine ⟨⟨moves.hasSent settled.hasSent, ?_⟩, received, speech⟩
  rw [received]
  cases heard : c.hasReceived with
  | false =>
    rw [moves.phase heard calm, settled.phase, heard]
  | true =>
    have phase := settled.phase
    rw [heard, if_pos rfl] at phase
    rw [phase] at speech
    exact speech.stays_connected

/-- A new channel that is opened by a packet answers it. -/
theorem settled_create_onPacket {key : Key} {generation : Nat} {p : Packet}
    (opens : p.header.kind.opensChannel = true) :
    ((create key generation ctx.config ctx.now).onPacket ctx p).value.Settled := by
  refine settled_onPacket (by nofun) ?_
  cases kind : p.header.kind with
  | ping =>
    simp only [dispatch, kind]
    rfl
  | data =>
    simp only [dispatch, kind, onData]
    by_cases start : p.header.id = .streamStart
    · have place : ((create key generation ctx.config ctx.now).heard ctx).receiver.place
          ctx.config.receiveWindow p.header.id p.header.timestamp = .start := by
        rw [start]
        rfl
      simp only [place]
      exact accept_hasSent p
    · have place : ((create key generation ctx.config ctx.now).heard ctx).receiver.place
          ctx.config.receiveWindow p.header.id p.header.timestamp = .unplaced := by
        simp only [Receiver.place, start, if_false]
        rfl
      simp only [place]
      rfl
  | _ =>
    rw [kind] at opens
    cases opens

/-- A new channel that is opened from here sends a ping, and waits. -/
theorem settled_create_ping {key : Key} {generation : Nat} :
    ((create key generation ctx.config ctx.now).ping ctx).value.Settled := ⟨rfl, rfl⟩

end Channel

end ReliableDatagram
