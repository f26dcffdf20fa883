import ReliableDatagram.Proofs.Channel.Sound

/-!
# The sizes of datagrams

A datagram of a channel is a bare header, carries a write, returns the payload of a ping or is a ping
itself. So if all packets that a channel hears and all writes that it gets, with a header each, keep
to a limit, then so does what it sends. Only its own pings are as long as they are: nobody compares
them with a limit.
-/

namespace ReliableDatagram

open Channel

/-- A ping that the channel with this key makes up, as opposed to the answer to one. -/
def Channel.IsOwnPing (key : Key) (datagram : SocketAddr × Bytes) : Prop :=
  ∃ timestamp, datagram = (key.addr, (Packet.ping key.channel timestamp pingPayload).encode)

/-- The channel with this key puts nothing longer on the wire, its pings apart. -/
def Effect.Short (limit : Nat) (key : Key) (e : Effect) : Prop :=
  ∀ d, e.datagram? = some d → d.2.length ≤ limit ∨ IsOwnPing key d

namespace Channel

/-- Nothing that a channel has yet to send or may send again is longer. -/
structure Short (limit : Nat) (c : Channel) : Prop where
  unacked : ∀ x ∈ c.sender.unacked.contents, x.2.length ≤ limit
  parked : ∀ w ∈ c.sender.parked, Packet.Header.size + w.payload.length ≤ limit
  pendingReset : ∀ r, c.receiver.pendingReset = some r → r.packet.length ≤ limit

/-- An operation brings nothing that takes a longer datagram. -/
def Op.Short (limit : Nat) : Op → Prop
  | .packet p => p.encode.length ≤ limit
  | .write w => Packet.Header.size + w.payload.length ≤ limit
  | _ => True

variable {limit : Nat} {key : Key} {ctx : Context} {op : Op} {c c' : Channel} {log : List Effect}
  {ws : List ParkedWrite}

theorem length_of_isOwnPing {d : SocketAddr × Bytes} (own : IsOwnPing key d) :
    d.2.length = Packet.Header.size + pingPayload.length := by
  obtain ⟨timestamp, rfl⟩ := own
  exact Packet.length_encode _

theorem short_create (limit : Nat) (key : Key) (generation : Nat) (config : Config) (now : Nat) :
    (Channel.create key generation config now).Short limit :=
  ⟨fun _ held => absurd held List.not_mem_nil, fun _ waits => absurd waits List.not_mem_nil, nofun⟩

section Effects

theorem short_send {target : SocketAddr} {bytes : Bytes} (short : bytes.length ≤ limit) :
    (Effect.send target bytes).Short limit key := by
  rintro _ ⟨⟩
  exact .inl short

theorem short_resend {target : SocketAddr} {bytes : Bytes} (short : bytes.length ≤ limit) :
    (Effect.resend target bytes).Short limit key := by
  rintro _ ⟨⟩
  exact .inl short

theorem short_of_silent {e : Effect} (silent : e.datagram? = none) : e.Short limit key := by
  intro d sent
  rw [silent] at sent
  cases sent

theorem short_transmit {q : Packet} (short : q.encode.length ≤ limit) :
    ∀ e ∈ (c.transmit ctx q).log, e.Short limit key := by
  intro e sent
  rcases List.mem_singleton.mp sent with rfl
  exact short_send short

theorem short_accept (room : Packet.Header.size ≤ limit) (p : Packet) :
    ∀ e ∈ (c.accept ctx p).log, e.Short limit key := by
  intro e logged
  rcases mem_accept_log c p logged with rfl | rfl | ⟨payload, rfl⟩
  · exact short_send room
  · exact short_of_silent rfl
  · exact short_of_silent rfl

theorem short_says (room : Packet.Header.size ≤ limit) {q : Packet} (speech : Says c ctx op q)
    (asked : op.Short limit) : ∀ e ∈ (c.transmit ctx q).log, e.Short limit c.key := by
  cases speech with
  | ackReset => exact short_transmit room
  | @ackPing p =>
    have returned : p.ackPing.encode.length = p.encode.length := by
      rw [Packet.length_encode, Packet.length_encode]
      rfl
    exact short_transmit (returned ▸ asked)
  | ping =>
    intro e sent
    rcases List.mem_singleton.mp sent with rfl
    rintro _ ⟨⟩
    exact .inr ⟨_, rfl⟩

end Effects

theorem Move.short (move : Move ctx op c log ws c') (room : Packet.Header.size ≤ limit)
    (asked : op.Short limit) (fits : c.Short limit) : c'.Short limit := by
  refine ⟨fun x held => ?_, fun w waits => ?_, fun r pending => ?_⟩
  · rcases move.unacked x held with old | ⟨w, waited, rfl⟩
    · exact fits.unacked x old
    · show (Packet.encode _).length ≤ limit
      rw [Packet.length_encode]
      exact fits.parked w waited
  · rcases List.mem_append.mp (move.parked w waits) with waited | new
    · exact fits.parked w waited
    · cases op with
      | write v =>
        rcases List.mem_singleton.mp new with rfl
        exact asked
      | _ => cases new
  · rcases move.pendingReset r pending with ⟨r', pending', same⟩ | same
    · rw [same]
      exact fits.pendingReset r' pending'
    · rw [same]
      exact room

theorem Move.short_log (move : Move ctx op c log ws c') (room : Packet.Header.size ≤ limit)
    (asked : op.Short limit) (fits : c.Short limit) : ∀ e ∈ log, e.Short limit c.key := by
  cases move with
  | say speech => exact short_says room speech asked
  | @send _ _ w rest first =>
    have short := fits.parked w (by rw [first]; exact List.mem_cons_self)
    intro e logged
    simp only [log_sendWrite, List.mem_cons, List.not_mem_nil, or_false] at logged
    rcases logged with rfl | rfl
    · exact short_send (by rwa [Packet.length_encode])
    · exact short_of_silent rfl
  | measure =>
    intro e logged
    obtain ⟨rtt, rfl⟩ := mem_onAckPing_log logged
    exact short_of_silent rfl
  | accept => exact short_accept room _
  | acceptStart => exact short_accept room _
  | confirm => exact short_transmit room
  | keep => exact short_transmit room
  | requestReset _ _ idle =>
    intro e logged
    simp only [requestReset_idle idle, List.mem_cons, List.not_mem_nil, or_false] at logged
    rcases logged with rfl | rfl
    · exact short_send room
    · exact short_of_silent rfl
  | resendData =>
    intro e logged
    obtain ⟨x, held, rfl⟩ := mem_resendData_log _ _ logged
    exact short_resend (fits.unacked x held)
  | resendReset =>
    intro e logged
    obtain ⟨r, pending, rfl⟩ := mem_resendReset_log _ _ _ logged
    exact short_resend (fits.pendingReset r pending)
  | connect | refuse | startOver | restart | resetAnswered =>
    intro e logged
    rcases List.mem_singleton.mp logged with rfl
    exact short_of_silent rfl
  | _ => exact fun e logged => absurd logged List.not_mem_nil

theorem Moves.short (moves : Moves ctx op c log ws c') (room : Packet.Header.size ≤ limit)
    (asked : op.Short limit) (fits : c.Short limit) : c'.Short limit := by
  induction moves with
  | none => exact fits
  | snoc _ last ih => exact last.short room asked ih

theorem Moves.short_log (moves : Moves ctx op c log ws c') (room : Packet.Header.size ≤ limit)
    (asked : op.Short limit) (fits : c.Short limit) : ∀ e ∈ log, e.Short limit c.key := by
  induction moves with
  | none => exact fun e logged => absurd logged List.not_mem_nil
  | snoc before last ih =>
    intro e logged
    rcases List.mem_append.mp logged with early | late
    · exact ih e early
    · rw [← before.key]
      exact last.short_log room asked (before.short room asked fits) e late

end Channel

end ReliableDatagram
