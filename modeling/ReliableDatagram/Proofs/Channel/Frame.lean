import ReliableDatagram.Proofs.Channel.Moves
import ReliableDatagram.Proofs.SendQueue

/-!
# What the parts of a move leave alone

Views of the functions that moves are made of: which of key, generation, send direction and
receive direction they change, and what they log.
-/

namespace ReliableDatagram.Channel

variable {ctx : Context}

section CheckConnected

variable (c : Channel)

@[simp] theorem checkConnected_key : c.checkConnected.value.key = c.key := by
  unfold checkConnected
  split <;> rfl

@[simp] theorem checkConnected_generation :
    c.checkConnected.value.generation = c.generation := by
  unfold checkConnected
  split <;> rfl

@[simp] theorem checkConnected_sender : c.checkConnected.value.sender = c.sender := by
  unfold checkConnected
  split <;> rfl

@[simp] theorem checkConnected_receiver : c.checkConnected.value.receiver = c.receiver := by
  unfold checkConnected
  split <;> rfl

theorem mem_checkConnected_log {e : Effect} (logged : e ∈ c.checkConnected.log) :
    e = .emit (.connected c.key) := by
  unfold checkConnected at logged
  split at logged
  · exact List.mem_singleton.mp logged
  · cases logged

end CheckConnected

section Accept

variable (c : Channel) (p : Packet)

@[simp] theorem accept_key : (c.accept ctx p).value.key = c.key := by
  show ((c.transmit ctx p.ack).value.checkConnected).value.key = c.key
  exact checkConnected_key _

@[simp] theorem accept_generation : (c.accept ctx p).value.generation = c.generation := by
  show ((c.transmit ctx p.ack).value.checkConnected).value.generation = c.generation
  exact checkConnected_generation _

@[simp] theorem accept_sender : (c.accept ctx p).value.sender = c.sender := by
  show ((c.transmit ctx p.ack).value.checkConnected).value.sender = c.sender
  exact checkConnected_sender _

@[simp] theorem accept_receiver :
    (c.accept ctx p).value.receiver = (c.receiver.accept p.header.id p.payload).2 := by
  show (((c.transmit ctx p.ack).value.checkConnected).value.receiver.accept
    p.header.id p.payload).2 = _
  rw [checkConnected_receiver]
  rfl

theorem log_accept :
    (c.accept ctx p).log =
      .send c.key.addr p.ack.encode :: ((c.transmit ctx p.ack).value.checkConnected.log ++
        (c.receiver.accept p.header.id p.payload).1.map
          fun payload => .emit (.data c.key payload)) := by
  show .send c.key.addr p.ack.encode :: (_ ++
    ((((c.transmit ctx p.ack).value.checkConnected).value.receiver.accept
      p.header.id p.payload).1.map fun payload =>
        Effect.emit (.data ((c.transmit ctx p.ack).value.checkConnected).value.key payload))) = _
  rw [checkConnected_receiver, checkConnected_key]
  rfl

/-- An accepted packet is acknowledged, and all else that it leads to is reported. -/
theorem mem_accept_log {e : Effect} (logged : e ∈ (c.accept ctx p).log) :
    e = .send c.key.addr p.ack.encode ∨ e = .emit (.connected c.key) ∨
      ∃ payload, e = .emit (.data c.key payload) := by
  rw [log_accept] at logged
  rcases List.mem_cons.mp logged with same | logged
  · exact .inl same
  · rcases List.mem_append.mp logged with connected | delivered
    · exact .inr (.inl (mem_checkConnected_log (c.transmit ctx p.ack).value connected))
    · obtain ⟨payload, _, same⟩ := List.mem_map.mp delivered
      exact .inr (.inr ⟨payload, same.symm⟩)

@[simp] theorem acceptStart_key : (c.acceptStart ctx p).value.key = c.key := accept_key _ p

@[simp] theorem acceptStart_generation :
    (c.acceptStart ctx p).value.generation = c.generation := accept_generation _ p

@[simp] theorem acceptStart_sender : (c.acceptStart ctx p).value.sender = c.sender :=
  accept_sender _ p

@[simp] theorem acceptStart_receiver :
    (c.acceptStart ctx p).value.receiver =
      ((c.receiver.start p.header.timestamp).accept p.header.id p.payload).2 :=
  accept_receiver _ p

end Accept

theorem mem_onAckPing_log {c : Channel} {header : Packet.Header} {e : Effect}
    (logged : e ∈ (c.onAckPing ctx header).log) : ∃ rtt, e = .emit (.gotAckPing c.key rtt) := by
  unfold onAckPing at logged
  dsimp only at logged
  split at logged
  · exact ⟨_, List.mem_singleton.mp logged⟩
  · cases logged

theorem mem_destroy_log {c : Channel} {reason : DisconnectReason} {e : Effect}
    (logged : e ∈ (c.destroy reason).log) :
    (∃ w ∈ c.sender.parked, e = .reply w.ticket (.error (.connectionClosed c.key))) ∨
      e = .emit (.disconnected c.key reason) := by
  rcases List.mem_append.mp logged with failed | gone
  · obtain ⟨w, waits, rfl⟩ := List.mem_map.mp failed
    exact .inl ⟨w, waits, rfl⟩
  · split at gone
    · exact .inr (List.mem_singleton.mp gone)
    · cases gone

section Resend

variable (c : Channel) (deadline : Nat)

@[simp] theorem resendData_key : (c.resendData ctx deadline).value.1.key = c.key := by
  unfold resendData
  dsimp only
  split <;> rfl

@[simp] theorem resendData_generation :
    (c.resendData ctx deadline).value.1.generation = c.generation := by
  unfold resendData
  dsimp only
  split <;> rfl

@[simp] theorem resendData_receiver :
    (c.resendData ctx deadline).value.1.receiver = c.receiver := by
  unfold resendData
  dsimp only
  split <;> rfl

@[simp] theorem resendData_rtt : (c.resendData ctx deadline).value.1.rtt = c.rtt := by
  unfold resendData
  dsimp only
  split <;> rfl

@[simp] theorem resendData_nextId :
    (c.resendData ctx deadline).value.1.sender.nextId = c.sender.nextId := by
  unfold resendData
  dsimp only
  split <;> rfl

@[simp] theorem resendData_parked :
    (c.resendData ctx deadline).value.1.sender.parked = c.sender.parked := by
  unfold resendData
  dsimp only
  split <;> rfl

theorem resendData_limit :
    (c.resendData ctx deadline).value.1.sender.unacked.limit = c.sender.unacked.limit := by
  unfold resendData
  dsimp only
  split <;> rfl

@[simp] theorem resendData_contents :
    (c.resendData ctx deadline).value.1.sender.unacked.contents = c.sender.unacked.contents := by
  have same := c.sender.unacked.contents_resend ctx.now ctx.config.maxResendAttempts deadline
    c.sender.unacked.limit
  unfold resendData
  dsimp only
  split
  · exact same
  · exact same

theorem log_resendData :
    (c.resendData ctx deadline).log =
      ((c.sender.unacked.live ctx.now ctx.config.maxResendAttempts).filter
        (SendQueue.Entry.isExpired ctx.now)).map fun e => .resend c.key.addr e.packet := by
  have same : (c.resendData ctx deadline).value.1.key = c.key := resendData_key c deadline
  unfold resendData at same ⊢
  dsimp only at same ⊢
  rw [same]

theorem mem_resendData_log {e : Effect} (logged : e ∈ (c.resendData ctx deadline).log) :
    ∃ x ∈ c.sender.unacked.contents, e = .resend c.key.addr x.2 := by
  rw [log_resendData] at logged
  obtain ⟨x, due, rfl⟩ := List.mem_map.mp logged
  have held : x ∈ c.sender.unacked.entries := SendQueue.mem_of_mem_live (List.mem_filter.mp due).1
  exact ⟨(x.id, x.packet), List.mem_map.mpr ⟨x, held, rfl⟩, rfl⟩

end Resend

section ResendReset

variable (ctx : Context) (c : Channel) (deadline : Nat)

/-- A pass over a pending request changes its deadline and attempts only. -/
theorem resendReset_value :
    (c.resendReset ctx deadline).value.1 = c ∨
      ∃ r attempts, c.receiver.pendingReset = some r ∧
        (c.resendReset ctx deadline).value.1 =
          { c with
            receiver.pendingReset := some { r with deadline, attempts }
            hasSent := true
            lastSent := ctx.now } := by
  unfold resendReset
  split
  · exact .inl rfl
  · next r pending =>
    split
    · exact .inl rfl
    · split
      · exact .inl rfl
      · exact .inr ⟨r, r.attempts + 1, pending, rfl⟩

@[simp] theorem resendReset_key : (c.resendReset ctx deadline).value.1.key = c.key := by
  rcases resendReset_value ctx c deadline with same | ⟨r, _, _, same⟩ <;> rw [same]

@[simp] theorem resendReset_generation :
    (c.resendReset ctx deadline).value.1.generation = c.generation := by
  rcases resendReset_value ctx c deadline with same | ⟨r, _, _, same⟩ <;> rw [same]

@[simp] theorem resendReset_sender : (c.resendReset ctx deadline).value.1.sender = c.sender := by
  rcases resendReset_value ctx c deadline with same | ⟨r, _, _, same⟩ <;> rw [same]

theorem mem_resendReset_log {e : Effect} (logged : e ∈ (c.resendReset ctx deadline).log) :
    ∃ r, c.receiver.pendingReset = some r ∧ e = .resend c.key.addr r.packet := by
  unfold resendReset at logged
  split at logged
  · cases logged
  · next r pending =>
    split at logged
    · cases logged
    · split at logged
      · cases logged
      · exact ⟨r, pending, List.mem_singleton.mp logged⟩

end ResendReset

section Tune

variable (c : Channel) (config : Config) (rates : Rates)

/-- Tuning changes the limit of the send queue only. -/
theorem tune_eq :
    ∃ limit, c.tune config rates = { c with sender.unacked.limit := limit } := by
  unfold tune
  dsimp only
  split
  · exact ⟨c.sender.unacked.limit, rfl⟩
  · split
    · exact ⟨_, rfl⟩
    · split
      · exact ⟨_, rfl⟩
      · exact ⟨c.sender.unacked.limit, rfl⟩

@[simp] theorem tune_key : (c.tune config rates).key = c.key := by
  obtain ⟨limit, same⟩ := c.tune_eq config rates
  rw [same]

@[simp] theorem tune_generation : (c.tune config rates).generation = c.generation := by
  obtain ⟨limit, same⟩ := c.tune_eq config rates
  rw [same]

@[simp] theorem tune_receiver : (c.tune config rates).receiver = c.receiver := by
  obtain ⟨limit, same⟩ := c.tune_eq config rates
  rw [same]

@[simp] theorem tune_nextId : (c.tune config rates).sender.nextId = c.sender.nextId := by
  obtain ⟨limit, same⟩ := c.tune_eq config rates
  rw [same]

@[simp] theorem tune_parked : (c.tune config rates).sender.parked = c.sender.parked := by
  obtain ⟨limit, same⟩ := c.tune_eq config rates
  rw [same]

@[simp] theorem tune_contents :
    (c.tune config rates).sender.unacked.contents = c.sender.unacked.contents := by
  obtain ⟨limit, same⟩ := c.tune_eq config rates
  rw [same]
  rfl

end Tune

section RequestReset

variable {c : Channel}

theorem requestReset_idle (idle : c.receiver.pendingReset = none) :
    c.requestReset ctx =
      ⟨{ c with
          receiver.pendingReset := some {
            packet := (Packet.reset c.key.channel ctx.timestamp).encode
            deadline := ctx.now + c.retransmitTimeout ctx.config }
          hasSent := true
          lastSent := ctx.now },
        [.send c.key.addr (Packet.reset c.key.channel ctx.timestamp).encode,
          .emit (.resetSent c.key)]⟩ := by
  simp only [requestReset, idle, Option.isSome_none, Bool.false_eq_true, if_false]
  rfl

theorem requestReset_pending {r : PendingReset} (pending : c.receiver.pendingReset = some r) :
    c.requestReset ctx = pure c := by
  simp [requestReset, pending]

end RequestReset

end ReliableDatagram.Channel
