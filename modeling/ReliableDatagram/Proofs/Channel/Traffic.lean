import ReliableDatagram.Proofs.Channel.Decomposition
import ReliableDatagram.Proofs.Channel.Directions
import ReliableDatagram.Proofs.Packet.Label

/-!
# Traffic

Views of a log by what stands at the front of its datagrams. They hold of whatever packets and writes
reach a channel, whether a peer could parse what comes of them or not.
-/

namespace ReliableDatagram.Channel

variable {kind : Packet.Kind} {ctx : Context} {op : Op} {c c' : Channel} {log : List Effect}
  {ws : List ParkedWrite}

/-- The packets of a kind that a log sends for the first time, with their ids. -/
def posted (kind : Packet.Kind) (log : List Effect) : List (PacketId × Bytes) :=
  log.filterMap (Effect.posted? kind)

/-- The packets of a kind that a log sends again. -/
def repeated (kind : Packet.Kind) (log : List Effect) : List Bytes :=
  log.filterMap (Effect.repeated? kind)

/-- The ids of all packets of a kind that a log sends, be it for the first time or again. -/
def sentIds (kind : Packet.Kind) (log : List Effect) : List PacketId :=
  log.filterMap (Effect.sentId? kind)

@[simp] theorem posted_append (kind : Packet.Kind) (log log' : List Effect) :
    posted kind (log ++ log') = posted kind log ++ posted kind log' := List.filterMap_append

@[simp] theorem repeated_append (kind : Packet.Kind) (log log' : List Effect) :
    repeated kind (log ++ log') = repeated kind log ++ repeated kind log' := List.filterMap_append

@[simp] theorem sentIds_append (kind : Packet.Kind) (log log' : List Effect) :
    sentIds kind (log ++ log') = sentIds kind log ++ sentIds kind log' := List.filterMap_append

theorem posted_eq_nil_of_sentIds (mute : sentIds kind log = []) : posted kind log = [] :=
  List.filterMap_eq_nil_iff.mpr fun e logged =>
    Effect.posted?_eq_none (List.filterMap_eq_nil_iff.mp mute e logged)

theorem repeated_eq_nil_of_sentIds (mute : sentIds kind log = []) : repeated kind log = [] :=
  List.filterMap_eq_nil_iff.mpr fun e logged =>
    Effect.repeated?_eq_none (List.filterMap_eq_nil_iff.mp mute e logged)

section Silence

/-- Nothing is sent. -/
def Silent (log : List Effect) : Prop := ∀ e ∈ log, e.datagram? = none

theorem Silent.append {log' : List Effect} (silent : Silent log) (silent' : Silent log') :
    Silent (log ++ log') :=
  List.forall_mem_append.mpr ⟨silent, silent'⟩

theorem Silent.sentIds (silent : Silent log) (kind : Packet.Kind) : sentIds kind log = [] :=
  List.filterMap_eq_nil_iff.mpr fun e logged => Effect.sentId?_eq_none (silent e logged)

theorem Silent.posted (silent : Silent log) (kind : Packet.Kind) : posted kind log = [] :=
  posted_eq_nil_of_sentIds (silent.sentIds kind)

theorem silent_checkConnected (c : Channel) : Silent c.checkConnected.log := fun e logged => by
  rw [mem_checkConnected_log c logged]
  rfl

theorem silent_onAckPing (c : Channel) (header : Packet.Header) :
    Silent (c.onAckPing ctx header).log := fun e logged => by
  obtain ⟨rtt, rfl⟩ := mem_onAckPing_log logged
  rfl

theorem silent_data (key : Key) (delivered : List Bytes) :
    Silent (delivered.map fun payload => .emit (.data key payload)) := fun e logged => by
  obtain ⟨payload, _, rfl⟩ := List.mem_map.mp logged
  rfl

theorem silent_destroy (c : Channel) (reason : DisconnectReason) :
    Silent (c.destroy reason).log := fun _ logged => datagram?_of_mem_destroy logged

end Silence

section Datagrams

variable (kind) (target : SocketAddr) (p : Packet)

theorem posted_send :
    posted kind [.send target p.encode] =
      if p.header.kind = kind then [(p.header.id, p.encode)] else [] := by
  by_cases same : p.header.kind = kind <;> simp [posted, Effect.posted?, same]

theorem sentIds_send :
    sentIds kind [.send target p.encode] = if p.header.kind = kind then [p.header.id] else [] := by
  by_cases same : p.header.kind = kind <;>
    simp [sentIds, Effect.sentId?, Effect.datagram?, same]

theorem log_accept_eq (ctx : Context) (c : Channel) (p : Packet) :
    ∃ rest, Silent rest ∧ (c.accept ctx p).log = [.send c.key.addr p.ack.encode] ++ rest :=
  ⟨_, (silent_checkConnected _).append (silent_data _ _), log_accept c p⟩

theorem posted_accept : posted kind (c.accept ctx p).log =
    if .ack = kind then [(p.header.id, p.ack.encode)] else [] := by
  obtain ⟨rest, silent, same⟩ := log_accept_eq ctx c p
  rw [same, posted_append, silent.posted, List.append_nil]
  exact posted_send kind c.key.addr p.ack

theorem sentIds_accept : sentIds kind (c.accept ctx p).log =
    if .ack = kind then [p.header.id] else [] := by
  obtain ⟨rest, silent, same⟩ := log_accept_eq ctx c p
  rw [same, sentIds_append, silent.sentIds, List.append_nil]
  exact sentIds_send kind c.key.addr p.ack

theorem posted_sendWrite (w : ParkedWrite) : posted kind (c.sendWrite ctx w).log =
    if .data = kind then [(c.sender.nextId, (c.entryFor ctx w.payload).packet)] else [] := by
  rw [log_sendWrite, ← List.singleton_append, posted_append, posted_send]
  exact List.append_nil _

theorem sentIds_sendWrite (w : ParkedWrite) : sentIds kind (c.sendWrite ctx w).log =
    if .data = kind then [c.sender.nextId] else [] := by
  rw [log_sendWrite, ← List.singleton_append, sentIds_append, sentIds_send]
  exact List.append_nil _

theorem posted_requestReset (idle : c.receiver.pendingReset = none) :
    posted kind (c.requestReset ctx).log =
      if .reset = kind then
        [(.streamStart, (Packet.reset c.key.channel ctx.timestamp).encode)]
      else [] := by
  rw [requestReset_idle idle, ← List.singleton_append, posted_append, posted_send]
  exact List.append_nil _

theorem sentIds_requestReset (idle : c.receiver.pendingReset = none) :
    sentIds kind (c.requestReset ctx).log = if .reset = kind then [.streamStart] else [] := by
  rw [requestReset_idle idle, ← List.singleton_append, sentIds_append, sentIds_send]
  exact List.append_nil _

end Datagrams

section Resends

variable (c : Channel) (deadline : Nat)

theorem posted_resendData : posted kind (c.resendData ctx deadline).log = [] :=
  List.filterMap_eq_nil_iff.mpr fun e logged => by
    obtain ⟨x, _, rfl⟩ := mem_resendData_log c deadline logged
    rfl

theorem posted_resendReset : posted kind (c.resendReset ctx deadline).log = [] :=
  List.filterMap_eq_nil_iff.mpr fun e logged => by
    obtain ⟨r, _, rfl⟩ := mem_resendReset_log ctx c deadline logged
    rfl

end Resends

section Labels

/-- What is stored for sending it again is what the queue takes it for. -/
structure Labelled (c : Channel) : Prop where
  unacked : ∀ x ∈ c.sender.unacked.contents, Packet.label? x.2 = some (.data, x.1)
  request : ∀ r, c.receiver.pendingReset = some r →
    ∃ id, Packet.label? r.packet = some (.reset, id)

theorem labelled_create (key : Key) (generation : Nat) (config : Config) (now : Nat) :
    (create key generation config now).Labelled :=
  ⟨fun _ held => absurd held List.not_mem_nil, nofun⟩

theorem Move.labelled (move : Move ctx op c log ws c') (labelled : c.Labelled) : c'.Labelled := by
  constructor
  · intro x held
    rcases move.unacked x held with old | ⟨w, _, rfl⟩
    · exact labelled.unacked x old
    · exact Packet.label?_encode _
  · intro r pending
    rcases move.pendingReset r pending with ⟨r', pending', same⟩ | same
    · rw [same]
      exact labelled.request r' pending'
    · rw [same]
      exact ⟨_, Packet.label?_encode _⟩

theorem Moves.labelled (moves : Moves ctx op c log ws c') (labelled : c.Labelled) :
    c'.Labelled := by
  induction moves with
  | none => exact labelled
  | snoc _ last ih => exact last.labelled ih

theorem labelled_destroy (c : Channel) (reason : DisconnectReason) :
    (c.destroy reason).value.Labelled :=
  ⟨fun _ held => absurd held List.not_mem_nil, nofun⟩

theorem Labelled.apply (labelled : c.Labelled) (ctx : Context) (op : Op) :
    (c.apply ctx op).value.Labelled := by
  rcases apply_cases ctx op c with ⟨_, moves⟩ | ⟨reason, rfl⟩
  · exact moves.labelled labelled
  · exact labelled_destroy c reason

theorem Labelled.run (config : Config) (clock : Clock) (ops : List (Nat × Op))
    (labelled : c.Labelled) : (Channel.run config clock ops c).value.Labelled := by
  induction ops generalizing c with
  | nil => exact labelled
  | cons step ops ih => exact ih (labelled.apply _ step.2)

/-- A pass over the send queue sends data under the ids of what is in it. -/
theorem mem_sentIds_resendData {deadline : Nat} (labelled : c.Labelled) {id : PacketId}
    (sent : id ∈ sentIds kind (c.resendData ctx deadline).log) :
    kind = .data ∧ ∃ x ∈ c.sender.unacked.contents, x.1 = id := by
  obtain ⟨e, logged, seen⟩ := List.mem_filterMap.mp sent
  obtain ⟨x, held, rfl⟩ := mem_resendData_log c deadline logged
  simp only [Effect.sentId?, Effect.datagram?, Option.bind_some, labelled.unacked x held,
    Option.ite_none_right_eq_some, Option.some.injEq] at seen
  exact ⟨seen.1.symm, x, held, seen.2⟩

theorem sentIds_resendData_of_ne (deadline : Nat) (labelled : c.Labelled)
    (other : kind ≠ .data) : sentIds kind (c.resendData ctx deadline).log = [] :=
  List.eq_nil_iff_forall_not_mem.mpr fun _ sent =>
    other (mem_sentIds_resendData labelled sent).1

theorem sentIds_resendReset_of_ne (deadline : Nat) (labelled : c.Labelled)
    (other : kind ≠ .reset) : sentIds kind (c.resendReset ctx deadline).log = [] := by
  refine List.filterMap_eq_nil_iff.mpr fun e logged => ?_
  obtain ⟨r, pending, rfl⟩ := mem_resendReset_log ctx c deadline logged
  obtain ⟨j, label⟩ := labelled.request r pending
  simp only [Effect.sentId?, Effect.datagram?, Option.bind_some, label, if_neg other.symm]

end Labels

end ReliableDatagram.Channel
