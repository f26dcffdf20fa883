import ReliableDatagram.Proofs.Channel.Sound

/-!
# What goes into datagrams

A channel drafts packets of its own and answers to the packet that it hears. A packet that is sent
for the first time is drafted for it, and one that is sent again was drafted and stored earlier:
`Moves.ships`. As no datagram carries anything but a draft, what is true of drafts is true of
everything that a channel sends.
-/

namespace ReliableDatagram

namespace Channel

/-- The packets that the channel with this key makes up at a time: its own, and answers to the packet
that it hears, if it hears one. -/
inductive Draft (key : Key) (timestamp : UInt32) : Option Packet → Packet → Prop
  | data {heard : Option Packet} {id : PacketId} {payload : Bytes}
      (short : payload.length ≤ 0xffff) :
      Draft key timestamp heard (.data key.channel id timestamp payload)
  | ping {heard : Option Packet} :
      Draft key timestamp heard (.ping key.channel timestamp pingPayload)
  | reset {heard : Option Packet} : Draft key timestamp heard (.reset key.channel timestamp)
  | ack {p : Packet} (kind : p.header.kind = .data) : Draft key timestamp (some p) p.ack
  | ackReset {p : Packet} (kind : p.header.kind = .reset) : Draft key timestamp (some p) p.ackReset
  | ackPing {p : Packet} (kind : p.header.kind = .ping) : Draft key timestamp (some p) p.ackPing

/-- The packet that an operation brings. -/
def Op.heard? : Op → Option Packet
  | .packet p => some p
  | _ => none

namespace Draft

variable {key : Key} {timestamp : UInt32} {heard : Option Packet} {q : Packet}

theorem of_none (draft : Draft key timestamp none q) (heard : Option Packet) :
    Draft key timestamp heard q := by
  cases draft with
  | data short => exact .data short
  | ping => exact .ping
  | reset => exact .reset

theorem channel (draft : Draft key timestamp heard q)
    (own : ∀ p, heard = some p → p.header.channel = key.channel) :
    q.header.channel = key.channel := by
  cases draft with
  | data | ping | reset => rfl
  | @ack p | @ackReset p | @ackPing p => exact own p rfl

theorem wellFormed (draft : Draft key timestamp heard q)
    (channel_le : key.channel ≤ Packet.maxChannel)
    (known : ∀ p, heard = some p → p.WellFormed) : q.WellFormed := by
  cases draft with
  | data short => exact Packet.wellFormed_data channel_le short
  | ping => exact Packet.wellFormed_ping channel_le (by decide)
  | reset => exact Packet.wellFormed_reset channel_le
  | ack => exact (known _ rfl).ack
  | ackReset => exact (known _ rfl).ackReset
  | ackPing => exact (known _ rfl).ackPing

/-- Pings and requests to start over do not number anything. -/
theorem id_eq (draft : Draft key timestamp heard q)
    (request : q.header.kind = .ping ∨ q.header.kind = .reset) : q.header.id = .streamStart := by
  cases draft with
  | ping | reset => rfl
  | data | ack | ackReset | ackPing => rcases request with kind | kind <;> cases kind

end Draft

end Channel

open Channel

/-- A datagram to the peer of a key carries this packet: one that is drafted for it, or a copy of an
earlier draft. -/
inductive Effect.Carries (key : Key) (timestamp : UInt32) (heard : Option Packet) :
    Effect → Packet → Prop
  | send {p : Packet} (draft : Draft key timestamp heard p) :
      Carries key timestamp heard (.send key.addr p.encode) p
  | resend {p : Packet} {earlier : UInt32} (draft : Draft key earlier none p) :
      Carries key timestamp heard (.resend key.addr p.encode) p

/-- If an effect is a datagram, then it carries a draft. -/
def Effect.Ships (key : Key) (timestamp : UInt32) (heard : Option Packet) (e : Effect) : Prop :=
  e.datagram?.isSome → ∃ p, e.Carries key timestamp heard p

namespace Effect

variable {key : Key} {timestamp : UInt32} {heard : Option Packet} {e : Effect} {p : Packet}

theorem Carries.datagram? (carries : e.Carries key timestamp heard p) :
    e.datagram? = some (key.addr, p.encode) := by
  cases carries <;> rfl

/-- The draft that a datagram carries, at whatever time it was made. -/
theorem Carries.draft (carries : e.Carries key timestamp heard p) :
    ∃ timestamp, Draft key timestamp heard p := by
  cases carries with
  | send draft => exact ⟨timestamp, draft⟩
  | @resend _ earlier draft => exact ⟨earlier, draft.of_none heard⟩

theorem Ships.of_draft (draft : Draft key timestamp heard p) :
    (send key.addr p.encode).Ships key timestamp heard :=
  fun _ => ⟨p, .send draft⟩

theorem Ships.of_silent (silent : e.datagram? = none) : e.Ships key timestamp heard := fun datagram => by
  rw [silent] at datagram
  cases datagram

theorem Ships.of_none (ships : e.Ships key timestamp none) (heard : Option Packet) :
    e.Ships key timestamp heard := by
  intro datagram
  obtain ⟨p, carries⟩ := ships datagram
  cases carries with
  | send draft => exact ⟨p, .send (draft.of_none heard)⟩
  | resend draft => exact ⟨p, .resend draft⟩

end Effect

namespace Channel

/-- The encoding of a draft of the channel with this key, made at some time and answering nothing. -/
def Drafted (key : Key) (bytes : Bytes) : Prop :=
  ∃ timestamp p, Draft key timestamp none p ∧ bytes = p.encode

/-- Everything that a channel stores for sending it again is a draft of its own. -/
structure Stocked (c : Channel) : Prop where
  unacked : ∀ x ∈ c.sender.unacked.contents, Drafted c.key x.2
  pendingReset : ∀ r, c.receiver.pendingReset = some r → Drafted c.key r.packet

theorem Drafted.ships {key : Key} {bytes : Bytes} (drafted : Drafted key bytes) (timestamp : UInt32)
    (heard : Option Packet) : (Effect.resend key.addr bytes).Ships key timestamp heard := by
  obtain ⟨earlier, p, draft, rfl⟩ := drafted
  exact fun _ => ⟨p, .resend draft⟩

theorem stocked_create (key : Key) (generation : Nat) (config : Config) (now : Nat) :
    (Channel.create key generation config now).Stocked :=
  ⟨fun _ held => absurd held List.not_mem_nil, nofun⟩

variable {ctx : Context} {op : Op} {c c' : Channel} {log : List Effect} {ws : List ParkedWrite}

theorem Move.stocked (move : Move ctx op c log ws c') (sound : c.Sound) (stocked : c.Stocked) :
    c'.Stocked := by
  have key := move.key
  constructor
  · intro x held
    rw [key]
    rcases move.unacked x held with old | ⟨w, waited, rfl⟩
    · exact stocked.unacked x old
    · exact ⟨ctx.timestamp, _, .data (sound.parked w waited), rfl⟩
  · intro r pending
    rw [key]
    rcases move.pendingReset r pending with ⟨r', pending', same⟩ | same
    · rw [same]
      exact stocked.pendingReset r' pending'
    · exact ⟨ctx.timestamp, _, .reset, same⟩

theorem Says.draft {q : Packet} (speech : Says c ctx op q) :
    Draft c.key ctx.timestamp op.heard? q := by
  cases speech with
  | ackReset kind => exact .ackReset kind
  | ackPing kind => exact .ackPing kind
  | ping => exact .ping

theorem ships_accept {p : Packet} (kind : p.header.kind = .data) :
    ∀ e ∈ (c.accept ctx p).log, e.Ships c.key ctx.timestamp (some p) := by
  intro e logged
  rcases mem_accept_log c p logged with rfl | rfl | ⟨payload, rfl⟩
  · exact .of_draft (.ack kind)
  · exact .of_silent rfl
  · exact .of_silent rfl

theorem ships_transmit {q : Packet} {heard : Option Packet}
    (draft : Draft c.key ctx.timestamp heard q) :
    ∀ e ∈ (c.transmit ctx q).log, e.Ships c.key ctx.timestamp heard := by
  intro e sent
  rcases List.mem_singleton.mp sent with rfl
  exact .of_draft draft

theorem Move.ships (move : Move ctx op c log ws c') (sound : c.Sound) (stocked : c.Stocked) :
    ∀ e ∈ log, e.Ships c.key ctx.timestamp op.heard? := by
  cases move with
  | say speech => exact ships_transmit speech.draft
  | @send _ _ w rest first =>
    have short : w.payload.length ≤ 0xffff := sound.parked w (by rw [first]; exact List.mem_cons_self)
    intro e logged
    simp only [log_sendWrite, List.mem_cons, List.not_mem_nil, or_false] at logged
    rcases logged with rfl | rfl
    · exact .of_draft (.data short)
    · exact .of_silent rfl
  | measure =>
    intro e logged
    obtain ⟨rtt, rfl⟩ := mem_onAckPing_log logged
    exact .of_silent rfl
  | accept kind => exact ships_accept kind
  | acceptStart kind => exact ships_accept kind
  | confirm kind => exact ships_transmit (.ack kind)
  | keep kind => exact ships_transmit (.ack kind)
  | requestReset _ _ idle =>
    intro e logged
    simp only [requestReset_idle idle, List.mem_cons, List.not_mem_nil, or_false] at logged
    rcases logged with rfl | rfl
    · exact .of_draft .reset
    · exact .of_silent rfl
  | resendData =>
    intro e logged
    obtain ⟨x, held, rfl⟩ := mem_resendData_log _ _ logged
    exact (stocked.unacked x held).ships _ _
  | resendReset =>
    intro e logged
    obtain ⟨r, pending, rfl⟩ := mem_resendReset_log _ _ _ logged
    exact (stocked.pendingReset r pending).ships _ _
  | connect | refuse | startOver | restart | resetAnswered =>
    intro e logged
    rcases List.mem_singleton.mp logged with rfl
    exact .of_silent rfl
  | _ => exact fun e logged => absurd logged List.not_mem_nil

theorem Moves.stocked (moves : Moves ctx op c log ws c') (sound : c.Sound) (asked : op.Sound c.key)
    (stocked : c.Stocked) : c'.Stocked := by
  induction moves with
  | none => exact stocked
  | snoc before last ih => exact last.stocked (before.sound sound asked) ih

theorem Moves.ships (moves : Moves ctx op c log ws c') (sound : c.Sound) (asked : op.Sound c.key)
    (stocked : c.Stocked) : ∀ e ∈ log, e.Ships c.key ctx.timestamp op.heard? := by
  induction moves with
  | none => exact fun e logged => absurd logged List.not_mem_nil
  | snoc before last ih =>
    intro e logged
    rcases List.mem_append.mp logged with early | late
    · exact ih e early
    · rw [← before.key]
      exact last.ships (before.sound sound asked) (before.stocked sound asked stocked) e late

end Channel

end ReliableDatagram
