import ReliableDatagram.Proofs.Channel.Decomposition

/-!
# Everything a channel sends is its own

A channel stores encodings of well-formed packets with its own number only, and whatever it does is
addressed to its own peer and tells of its own key.
-/

namespace ReliableDatagram

/-- An effect of a channel with this key. -/
def Effect.Speaks (key : Key) : Effect → Prop
  | .send target bytes | .resend target bytes =>
    target = key.addr ∧
      ∃ p : Packet, bytes = p.encode ∧ p.WellFormed ∧ p.header.channel = key.channel
  | .emit event => event.key? = some key
  | .reply _ _ => True

namespace Channel

/-- An encoding of a packet of this kind for this channel number. -/
def Stores (channel : UInt8) (kind : Packet.Kind) (bytes : Bytes) : Prop :=
  ∃ p : Packet, bytes = p.encode ∧ p.WellFormed ∧ p.header.channel = channel ∧
    p.header.kind = kind

structure Sound (c : Channel) : Prop where
  channel_le : c.key.channel ≤ Packet.maxChannel
  unacked : ∀ x ∈ c.sender.unacked.contents, Stores c.key.channel .data x.2
  pendingReset : ∀ r, c.receiver.pendingReset = some r → Stores c.key.channel .reset r.packet
  parked : ∀ w ∈ c.sender.parked, w.payload.length ≤ 0xffff

/-- What a table makes sure of before an operation reaches the channel with this key. -/
def Op.Sound (key : Key) : Op → Prop
  | .packet p => p.WellFormed ∧ p.header.channel = key.channel
  | .write w => w.payload.length ≤ 0xffff
  | _ => True

/-- The write that an operation asks for. -/
def Op.writes : Op → List ParkedWrite
  | .write w => [w]
  | _ => []

/-- The data packets that an operation brings. -/
def Op.data : Op → List Packet
  | .packet p => if p.header.kind = .data then [p] else []
  | _ => []

theorem Op.mem_data {op : Op} {p : Packet} :
    p ∈ op.data ↔ op = .packet p ∧ p.header.kind = .data := by
  cases op with
  | packet q =>
    rw [Op.data]
    split
    · next kind =>
      rw [List.mem_singleton]
      constructor
      · rintro rfl
        exact ⟨rfl, kind⟩
      · rintro ⟨same, _⟩
        exact (Op.packet.inj same).symm
    · next kind =>
      constructor
      · nofun
      · rintro ⟨same, data⟩
        rw [Op.packet.inj same] at kind
        exact absurd data kind
  | _ => simp [Op.data]

theorem Stores.speaks_send {key : Key} {kind : Packet.Kind} {bytes : Bytes}
    (stored : Stores key.channel kind bytes) : (Effect.send key.addr bytes).Speaks key := by
  obtain ⟨p, encoded, sound, own, _⟩ := stored
  exact ⟨rfl, p, encoded, sound, own⟩

theorem Stores.speaks_resend {key : Key} {kind : Packet.Kind} {bytes : Bytes}
    (stored : Stores key.channel kind bytes) : (Effect.resend key.addr bytes).Speaks key :=
  stored.speaks_send

variable {ctx : Context} {op : Op} {c c' : Channel} {log : List Effect} {ws : List ParkedWrite}

theorem speaks_transmit {q : Packet} (sound : q.WellFormed) (own : q.header.channel = c.key.channel) :
    ∀ e ∈ (c.transmit ctx q).log, e.Speaks c.key := by
  intro e sent
  rcases List.mem_singleton.mp sent with rfl
  exact ⟨rfl, q, rfl, sound, own⟩

/-- The entry under which a write waits for its acknowledgement. -/
def entryFor (c : Channel) (ctx : Context) (payload : Bytes) : SendQueue.Entry where
  id := c.sender.nextId
  packet := (Packet.data c.key.channel c.sender.nextId ctx.timestamp payload).encode
  deadline := ctx.now + c.retransmitTimeout ctx.config

theorem sender_sendWrite (c : Channel) (w : ParkedWrite) :
    (c.sendWrite ctx w).value.sender =
      { nextId := c.sender.nextId.next
        unacked := c.sender.unacked.push (c.entryFor ctx w.payload)
        parked := c.sender.parked } := rfl

theorem log_sendWrite (c : Channel) (w : ParkedWrite) :
    (c.sendWrite ctx w).log =
      [.send c.key.addr
          (Packet.data c.key.channel c.sender.nextId ctx.timestamp w.payload).encode,
        .reply w.ticket (.ok w.payload.length)] := rfl

theorem stores_data (channel_le : c.key.channel ≤ Packet.maxChannel) {payload : Bytes}
    (short : payload.length ≤ 0xffff) :
    Stores c.key.channel .data (c.entryFor ctx payload).packet :=
  ⟨_, rfl, Packet.wellFormed_data channel_le short, rfl, rfl⟩

/-- A channel that holds nothing new is sound if it was so before. -/
theorem Sound.mono (sound : c.Sound) (key : c'.key = c.key)
    (unacked : ∀ x ∈ c'.sender.unacked.contents, x ∈ c.sender.unacked.contents)
    (pendingReset : ∀ r, c'.receiver.pendingReset = some r →
      ∃ r', c.receiver.pendingReset = some r' ∧ r.packet = r'.packet)
    (parked : ∀ w ∈ c'.sender.parked, w ∈ c.sender.parked) : c'.Sound := by
  refine ⟨?_, ?_, ?_, ?_⟩
  · rw [key]
    exact sound.channel_le
  · intro x held
    rw [key]
    exact sound.unacked x (unacked x held)
  · intro r pending
    obtain ⟨r', pending', same⟩ := pendingReset r pending
    rw [key, same]
    exact sound.pendingReset r' pending'
  · intro w waits
    exact sound.parked w (parked w waits)

theorem Move.key (move : Move ctx op c log ws c') : c'.key = c.key := by
  cases move with
  | accept => exact accept_key _ _
  | acceptStart => exact accept_key _ _
  | requestReset _ _ idle => rw [requestReset_idle idle]
  | resendData => exact resendData_key _ _
  | resendReset => exact resendReset_key _ _ _
  | tune => exact tune_key _ _ _
  | _ => rfl

theorem Move.generation (move : Move ctx op c log ws c') : c'.generation = c.generation := by
  cases move with
  | accept => exact accept_generation _ _
  | acceptStart => exact accept_generation _ _
  | requestReset _ _ idle => rw [requestReset_idle idle]
  | resendData => exact resendData_generation _ _
  | resendReset => exact resendReset_generation _ _ _
  | tune => exact tune_generation _ _ _
  | _ => rfl

theorem Move.parked (move : Move ctx op c log ws c') :
    ∀ w ∈ c'.sender.parked, w ∈ c.sender.parked ++ op.writes := by
  intro w waits
  cases move with
  | park => exact waits
  | send first =>
    rw [first]
    exact List.mem_append_left _ (List.mem_cons_of_mem _ waits)
  | accept =>
    rw [accept_sender] at waits
    exact List.mem_append_left _ waits
  | acceptStart =>
    rw [acceptStart_sender] at waits
    exact List.mem_append_left _ waits
  | requestReset _ _ idle =>
    rw [requestReset_idle idle] at waits
    exact List.mem_append_left _ waits
  | resendData =>
    rw [resendData_parked] at waits
    exact List.mem_append_left _ waits
  | resendReset =>
    rw [resendReset_sender] at waits
    exact List.mem_append_left _ waits
  | tune =>
    rw [tune_parked] at waits
    exact List.mem_append_left _ waits
  | _ => exact List.mem_append_left _ waits

/-- A packet comes into the send queue with a parked write only. -/
theorem Move.unacked (move : Move ctx op c log ws c') :
    ∀ x ∈ c'.sender.unacked.contents, x ∈ c.sender.unacked.contents ∨
      ∃ w ∈ c.sender.parked, x = (c.sender.nextId, (c.entryFor ctx w.payload).packet) := by
  intro x held
  cases move with
  | @send _ _ w rest first =>
    rw [sender_sendWrite, SendQueue.contents_push] at held
    rcases List.mem_append.mp held with held | new
    · exact .inl held
    · exact .inr ⟨w, first ▸ List.mem_cons_self, List.mem_singleton.mp new⟩
  | settle _ found => exact .inl (SendQueue.mem_contents_of_remove? found held)
  | startOver | restart => exact absurd held (List.not_mem_nil)
  | accept => exact .inl (by rwa [accept_sender] at held)
  | acceptStart => exact .inl (by rwa [acceptStart_sender] at held)
  | requestReset _ _ idle => exact .inl (by rwa [requestReset_idle idle] at held)
  | resendData => exact .inl (by rwa [resendData_contents] at held)
  | resendReset => exact .inl (by rwa [resendReset_sender] at held)
  | tune => exact .inl (by rwa [tune_contents] at held)
  | _ => exact .inl held

/-- The packet of a pending request to start over is the one that it was made with. -/
theorem Move.pendingReset (move : Move ctx op c log ws c') :
    ∀ r, c'.receiver.pendingReset = some r →
      (∃ r', c.receiver.pendingReset = some r' ∧ r.packet = r'.packet) ∨
        r.packet = (Packet.reset c.key.channel ctx.timestamp).encode := by
  intro r pending
  cases move with
  | restart | resetAnswered => cases pending
  | accept =>
    rw [accept_receiver] at pending
    exact .inl ⟨r, pending, rfl⟩
  | acceptStart =>
    rw [acceptStart_receiver] at pending
    cases pending
  | requestReset _ _ idle =>
    rw [requestReset_idle idle] at pending
    cases pending
    exact .inr rfl
  | resendData =>
    rw [resendData_receiver] at pending
    exact .inl ⟨r, pending, rfl⟩
  | resendReset =>
    rcases resendReset_value ctx c (ctx.now + c.retransmitTimeout ctx.config) with
      same | ⟨r', _, pending', same⟩
    · rw [same] at pending
      exact .inl ⟨r, pending, rfl⟩
    · rw [same] at pending
      cases pending
      exact .inl ⟨r', pending', rfl⟩
  | tune =>
    rw [tune_receiver] at pending
    exact .inl ⟨r, pending, rfl⟩
  | _ => exact .inl ⟨r, pending, rfl⟩

theorem Op.Sound.write {key : Key} (asked : op.Sound key) :
    ∀ w ∈ op.writes, w.payload.length ≤ 0xffff := by
  cases op with
  | write v =>
    intro w mem
    rcases List.mem_singleton.mp mem with rfl
    exact asked
  | _ => nofun

/-- What a channel holds is sound if what it is given to send is short enough. -/
theorem Move.sound_of_short (move : Move ctx op c log ws c') (sound : c.Sound)
    (short : ∀ w ∈ op.writes, w.payload.length ≤ 0xffff) : c'.Sound := by
  have key := move.key
  refine ⟨?_, fun x held => ?_, fun r pending => ?_, fun w waits => ?_⟩
  · rw [key]
    exact sound.channel_le
  · rw [key]
    rcases move.unacked x held with old | ⟨w, waited, rfl⟩
    · exact sound.unacked x old
    · exact stores_data sound.channel_le (sound.parked w waited)
  · rw [key]
    rcases move.pendingReset r pending with ⟨r', pending', same⟩ | same
    · rw [same]
      exact sound.pendingReset r' pending'
    · exact ⟨_, same, Packet.wellFormed_reset sound.channel_le, rfl, rfl⟩
  · rcases List.mem_append.mp (move.parked w waits) with waited | new
    · exact sound.parked w waited
    · exact short w new

theorem Move.sound (move : Move ctx op c log ws c') (sound : c.Sound) (asked : op.Sound c.key) :
    c'.Sound :=
  move.sound_of_short sound asked.write

theorem Says.speaks {q : Packet} (speech : Says c ctx op q) (sound : c.Sound)
    (asked : op.Sound c.key) : q.WellFormed ∧ q.header.channel = c.key.channel := by
  cases speech with
  | ackReset => exact ⟨asked.1.ackReset, asked.2⟩
  | ackPing => exact ⟨asked.1.ackPing, asked.2⟩
  | ping => exact ⟨Packet.wellFormed_ping sound.channel_le (by decide), rfl⟩

theorem speaks_accept {p : Packet} (asked : (Op.packet p).Sound c.key) :
    ∀ e ∈ (c.accept ctx p).log, e.Speaks c.key := by
  intro e logged
  rcases mem_accept_log c p logged with rfl | rfl | ⟨payload, rfl⟩
  · exact ⟨rfl, p.ack, rfl, asked.1.ack, asked.2⟩
  · rfl
  · rfl

theorem Move.speaks (move : Move ctx op c log ws c') (sound : c.Sound) (asked : op.Sound c.key) :
    ∀ e ∈ log, e.Speaks c.key := by
  cases move with
  | say speech =>
    obtain ⟨wellFormed, own⟩ := speech.speaks sound asked
    exact speaks_transmit wellFormed own
  | @send _ _ w rest first =>
    have short : w.payload.length ≤ 0xffff := sound.parked w (by rw [first]; exact List.mem_cons_self)
    intro e logged
    simp only [log_sendWrite, List.mem_cons, List.not_mem_nil, or_false] at logged
    rcases logged with rfl | rfl
    · exact ⟨rfl, _, rfl, Packet.wellFormed_data sound.channel_le short, rfl⟩
    · trivial
  | measure =>
    intro e logged
    obtain ⟨rtt, rfl⟩ := mem_onAckPing_log logged
    rfl
  | accept => exact speaks_accept asked
  | acceptStart => exact speaks_accept asked
  | confirm => exact speaks_transmit asked.1.ack asked.2
  | keep => exact speaks_transmit asked.1.ack asked.2
  | requestReset _ _ idle =>
    intro e logged
    simp only [requestReset_idle idle, List.mem_cons, List.not_mem_nil, or_false] at logged
    rcases logged with rfl | rfl
    · exact ⟨rfl, _, rfl, Packet.wellFormed_reset sound.channel_le, rfl⟩
    · rfl
  | resendData =>
    intro e logged
    obtain ⟨x, held, rfl⟩ := mem_resendData_log _ _ logged
    exact (sound.unacked x held).speaks_resend
  | resendReset =>
    intro e logged
    obtain ⟨r, pending, rfl⟩ := mem_resendReset_log _ _ _ logged
    exact (sound.pendingReset r pending).speaks_resend
  | connect | refuse | startOver | restart | resetAnswered =>
    intro e logged
    rcases List.mem_singleton.mp logged with rfl
    first | rfl | trivial
  | _ => exact fun e logged => absurd logged (List.not_mem_nil)

theorem Moves.key (moves : Moves ctx op c log ws c') : c'.key = c.key := by
  induction moves with
  | none => rfl
  | snoc _ last ih => exact last.key.trans ih

theorem Moves.generation (moves : Moves ctx op c log ws c') : c'.generation = c.generation := by
  induction moves with
  | none => rfl
  | snoc _ last ih => exact last.generation.trans ih

theorem Moves.sound_of_short (moves : Moves ctx op c log ws c') (sound : c.Sound)
    (short : ∀ w ∈ op.writes, w.payload.length ≤ 0xffff) : c'.Sound := by
  induction moves with
  | none => exact sound
  | snoc _ last ih => exact last.sound_of_short ih short

theorem Moves.sound (moves : Moves ctx op c log ws c') (sound : c.Sound)
    (asked : op.Sound c.key) : c'.Sound :=
  moves.sound_of_short sound asked.write

theorem Moves.speaks (moves : Moves ctx op c log ws c') (sound : c.Sound)
    (asked : op.Sound c.key) : ∀ e ∈ log, e.Speaks c.key := by
  induction moves with
  | none => exact fun e logged => absurd logged (List.not_mem_nil)
  | snoc before last ih =>
    intro e logged
    rcases List.mem_append.mp logged with early | late
    · exact ih e early
    · rw [← before.key]
      exact last.speaks (before.sound sound asked) (by rwa [before.key]) e late

end Channel

end ReliableDatagram
