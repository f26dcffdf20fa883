import ReliableDatagram.Proofs.Channel.Sound

/-!
# When a channel last sent and last received

A channel remembers when it last sent and when it last received a packet. Whatever it does, it puts
these dates to the present moment or leaves them alone, and it moves the date of sending only when
something is sent. A tick times out a channel that received nothing for too long, and otherwise
leaves none behind that sent nothing for a keep-alive interval.
-/

namespace ReliableDatagram.Channel

/-- What an operation with this log did to the dates of a channel. -/
structure Dates (ctx : Context) (c : Channel) (log : List Effect) (c' : Channel) : Prop where
  sent : c'.lastSent = c.lastSent ∨
    c'.lastSent = ctx.now ∧ ∃ y ∈ log, y.datagram?.isSome = true
  received : c'.lastReceived = c.lastReceived ∨ c'.lastReceived = ctx.now

variable {ctx : Context} {op : Op} {c c' c'' : Channel} {log log' : List Effect}
  {ws : List ParkedWrite} {p : Packet}

namespace Dates

theorem refl (ctx : Context) (c : Channel) (log : List Effect) : Dates ctx c log c :=
  ⟨.inl rfl, .inl rfl⟩

theorem trans (first : Dates ctx c log c') (second : Dates ctx c' log' c'') :
    Dates ctx c (log ++ log') c'' := by
  constructor
  · rcases second.sent with same | ⟨now, y, logged, sends⟩
    · rcases first.sent with same' | ⟨now, y, logged, sends⟩
      · exact .inl (same.trans same')
      · exact .inr ⟨same.trans now, y, List.mem_append_left _ logged, sends⟩
    · exact .inr ⟨now, y, List.mem_append_right _ logged, sends⟩
  · rcases second.received with same | now
    · rcases first.received with same' | now
      · exact .inl (same.trans same')
      · exact .inr (same.trans now)
    · exact .inr now

end Dates

theorem dates_transmit (c : Channel) (ctx : Context) (q : Packet) :
    Dates ctx c (c.transmit ctx q).log (c.transmit ctx q).value :=
  ⟨.inr ⟨rfl, _, List.mem_singleton.mpr rfl, rfl⟩, .inl rfl⟩

theorem dates_checkConnected (c : Channel) (ctx : Context) :
    Dates ctx c c.checkConnected.log c.checkConnected.value := by
  unfold checkConnected
  split
  · exact ⟨.inl rfl, .inl rfl⟩
  · exact .refl ctx c _

theorem dates_accept (c : Channel) (ctx : Context) (p : Packet) :
    Dates ctx c (c.accept ctx p).log (c.accept ctx p).value := by
  have answered := (dates_transmit c ctx p.ack).trans
    (dates_checkConnected (c.transmit ctx p.ack).value ctx)
  refine ⟨?_, answered.received⟩
  rcases answered.sent with same | ⟨now, _⟩
  · exact .inl same
  · refine .inr ⟨now, .send c.key.addr p.ack.encode, ?_, rfl⟩
    simp [log_accept]

theorem dates_resendData (c : Channel) (ctx : Context) (deadline : Nat) :
    Dates ctx c (c.resendData ctx deadline).log (c.resendData ctx deadline).value.1 := by
  rw [log_resendData]
  unfold resendData
  dsimp only
  split
  · exact ⟨.inl rfl, .inl rfl⟩
  · next sends =>
    refine ⟨.inr ⟨rfl, ?_⟩, .inl rfl⟩
    simp only [Bool.or_eq_true, not_or, Bool.not_eq_true, List.isEmpty_eq_false_iff] at sends
    obtain ⟨e, due⟩ := List.exists_mem_of_ne_nil _ sends.1
    exact ⟨_, List.mem_map.mpr ⟨e, due, rfl⟩, rfl⟩

theorem dates_resendReset (c : Channel) (ctx : Context) (deadline : Nat) :
    Dates ctx c (c.resendReset ctx deadline).log (c.resendReset ctx deadline).value.1 := by
  unfold resendReset
  split
  · exact .refl ctx c _
  · split
    · exact .refl ctx c _
    · split
      · exact .refl ctx c _
      · exact ⟨.inr ⟨rfl, _, List.mem_singleton.mpr rfl, rfl⟩, .inl rfl⟩

theorem Move.dates (move : Move ctx op c log ws c') : Dates ctx c log c' := by
  cases move with
  | hear => exact ⟨.inl rfl, .inr rfl⟩
  | say => exact dates_transmit c ctx _
  | send => exact ⟨.inr ⟨rfl, _, List.mem_cons_self, rfl⟩, .inl rfl⟩
  | accept => exact dates_accept c ctx _
  | @acceptStart p _ =>
    have dates := dates_accept { c with receiver := c.receiver.start p.header.timestamp } ctx p
    exact ⟨dates.sent, dates.received⟩
  | confirm | keep => exact ⟨.inr ⟨rfl, _, List.mem_singleton.mpr rfl, rfl⟩, .inl rfl⟩
  | requestReset _ _ idle =>
    rw [requestReset_idle idle]
    exact ⟨.inr ⟨rfl, _, List.mem_cons_self, rfl⟩, .inl rfl⟩
  | resendData => exact dates_resendData c ctx _
  | resendReset => exact dates_resendReset c ctx _
  | tune =>
    obtain ⟨limit, same⟩ := c.tune_eq ctx.config c.meter.last
    rw [same]
    exact ⟨.inl rfl, .inl rfl⟩
  | _ => exact ⟨.inl rfl, .inl rfl⟩

theorem Moves.dates (moves : Moves ctx op c log ws c') : Dates ctx c log c' := by
  induction moves with
  | none => exact .refl ctx c []
  | snoc _ last ih => exact ih.trans last.dates

/-- A packet is received at the moment at which it is heard, whatever it leads to. -/
theorem onPacket_lastReceived (ctx : Context) (c : Channel) (p : Packet) :
    (c.onPacket ctx p).value.lastReceived = ctx.now := by
  let heard : Channel := { c with hasReceived := true, lastReceived := ctx.now }
  have dispatched : Dates ctx heard _ (heard.dispatch ctx p).value := (moves_dispatch heard p).dates
  have checked := dates_checkConnected (heard.dispatch ctx p).value ctx
  rcases checked.received with same | now
  · rcases dispatched.received with same' | now
    · exact same.trans same'
    · exact same.trans now
  · exact now

section Tick

/-- A tick reports a timeout just if nothing was received for that long. -/
theorem tick_eq_timeout_iff :
    (c.tick ctx).value.2 = some .timeout ↔
      ctx.config.disconnectTimeout ≤ ctx.now - c.lastReceived := by
  constructor
  · intro timeout
    refine Nat.le_of_not_lt fun recent => ?_
    simp only [tick, if_neg (Nat.not_le_of_lt recent), Logged.value_bind] at timeout
    split at timeout
    · cases timeout
    · simp only [Logged.value_bind] at timeout
      split at timeout
      · cases timeout
      · cases timeout
  · intro silent
    simp only [tick, if_pos silent, Logged.value_pure]

theorem keepAlive_recent (positive : 0 < ctx.config.keepAliveInterval) (c : Channel) :
    ctx.now < (c.keepAlive ctx).value.lastSent + ctx.config.keepAliveInterval := by
  unfold keepAlive
  split
  · have pinged : (c.ping ctx).value.lastSent = ctx.now := by
      rcases (dates_checkConnected (c.transmit ctx _).value ctx).sent with same | ⟨now, _⟩
      · exact same
      · exact now
    rw [pinged]
    omega
  · show ctx.now < c.lastSent + _
    omega

/-- A channel that a tick leaves alive sent something not longer than a keep-alive interval ago. -/
theorem tick_recent (positive : 0 < ctx.config.keepAliveInterval)
    (kept : (c.tick ctx).value.2 = none) :
    ctx.now < (c.tick ctx).value.1.lastSent + ctx.config.keepAliveInterval := by
  have closed (d : Channel) : ctx.now <
      ((d.keepAlive ctx).value.closeWindow ctx).value.lastSent + ctx.config.keepAliveInterval := by
    have recent := keepAlive_recent positive d
    have dates : Dates ctx _ _ ((d.keepAlive ctx).value.closeWindow ctx).value :=
      (moves_closeWindow (d.keepAlive ctx).value).dates
    rcases dates.sent with same | ⟨now, _⟩
    · rwa [same]
    · omega
  unfold tick at kept ⊢
  split at kept
  · cases kept
  · next recent =>
    rw [if_neg recent]
    simp only [Logged.value_bind] at kept ⊢
    split at kept
    · cases kept
    · next live =>
      rw [if_neg live]
      simp only [Logged.value_bind] at kept ⊢
      split at kept
      · cases kept
      · next live' =>
        rw [if_neg live']
        exact closed _

end Tick

end ReliableDatagram.Channel
