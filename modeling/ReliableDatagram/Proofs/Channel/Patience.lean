import ReliableDatagram.Proofs.Channel.Answers

/-!
# Parked writes wait for room only

Between two operations of a channel, writes are parked only while the send queue takes no more:
whatever makes room also sends what is parked. `parked_without_room` says so of every channel that
operations and tunings in any order lead to. As the limit of a send queue never falls to zero,
nothing is ever parked behind an empty one.
-/

namespace ReliableDatagram

theorem Config.defaultQueueSize_pos {config : Config} (valid : config.validate = .ok ()) :
    0 < config.defaultQueueSize := by
  refine Nat.pos_of_ne_zero fun zero => ?_
  simp only [validate, zero, if_true] at valid
  split at valid <;> cases valid

namespace Channel

variable {s s' : Sender} {ctx : Context} {op : Op} {c c' : Channel} {log : List Effect}
  {ws : List ParkedWrite}

theorem canSend_congr (contents : s'.unacked.contents = s.unacked.contents)
    (limit : s'.unacked.limit = s.unacked.limit) : s'.canSend = s.canSend := by
  have contains (q : SendQueue) (id : PacketId) :
      q.contains id = q.contents.any (·.1 == id) := by
    simp [SendQueue.contains, SendQueue.contents, List.any_map, Function.comp_def]
  rw [Sender.canSend, Sender.canSend, SendQueue.isFull_congr contents limit, contains, contains,
    contents]

theorem canSend_eq_false_iff :
    s.canSend = false ↔
      s.unacked.limit ≤ s.unacked.length ∨ s.unacked.contains .streamStart = true := by
  simp only [Sender.canSend, SendQueue.isFull, Bool.and_eq_false_iff, Bool.not_eq_false',
    decide_eq_true_eq]

section Prompt

/-- Nothing is parked that could be sent. -/
def Prompt (s : Sender) : Prop := s.parked = [] ∨ s.canSend = false

theorem Prompt.of_same (prompt : Prompt s) (contents : s'.unacked.contents = s.unacked.contents)
    (limit : s'.unacked.limit = s.unacked.limit) (parked : s'.parked = s.parked) : Prompt s' := by
  unfold Prompt
  rw [parked, canSend_congr contents limit]
  exact prompt

theorem prompt_release (ws : List ParkedWrite) (c : Channel) :
    Prompt (release ctx ws c).value.sender := by
  induction ws generalizing c with
  | nil => exact .inl rfl
  | cons w ws ih =>
    simp only [release]
    split
    · exact ih _
    · next full =>
      have full : c.sender.canSend = false := by simpa using full
      exact .inr full

/-- Whatever was parked before, a flush leaves nothing that could be sent. -/
theorem prompt_flush (ctx : Context) (c : Channel) : Prompt (c.flush ctx).value.sender :=
  prompt_release _ c

theorem prompt_onData {p : Packet} (prompt : Prompt c.sender) :
    Prompt (c.onData ctx p).value.sender := by
  unfold onData
  split
  · rw [acceptStart_sender]
    exact prompt
  · rw [Logged.value_bind, acceptStart_sender]
    exact prompt_flush ctx _
  · unfold requestReset
    split <;> exact prompt
  · rw [accept_sender]
    exact prompt
  all_goals exact prompt

theorem prompt_onAck {header : Packet.Header} (prompt : Prompt c.sender) :
    Prompt (c.onAck ctx header).value.sender := by
  unfold onAck
  dsimp only
  split
  · exact prompt
  · exact prompt_flush ctx _

theorem prompt_onPacket (p : Packet) (prompt : Prompt c.sender) :
    Prompt (c.onPacket ctx p).value.sender := by
  have heard : Prompt (c.heard ctx).sender := prompt
  rw [onPacket_sender]
  unfold dispatch
  split
  · exact prompt_onData heard
  · exact prompt_onAck heard
  · exact prompt_flush ctx _
  · unfold onAckReset
    split <;> exact heard
  · exact heard
  · exact heard

theorem prompt_write (w : ParkedWrite) (prompt : Prompt c.sender) :
    Prompt (c.write ctx w).value.sender := by
  unfold write
  split
  · exact prompt
  · rw [Logged.value_bind, checkConnected_sender]
    unfold sendOrPark
    split
    · next free =>
      have none : c.sender.parked = [] := by
        simpa using (Bool.and_eq_true_iff.mp free).1
      exact .inl none
    · next busy =>
      split
      · have full : c.sender.canSend = false := by
          rcases prompt with none | full
          · simpa [none] using busy
          · exact full
        exact .inr full
      · exact prompt

theorem prompt_resendData (ctx : Context) (deadline : Nat) (prompt : Prompt c.sender) :
    Prompt (c.resendData ctx deadline).value.1.sender :=
  prompt.of_same (resendData_contents c deadline) (resendData_limit c deadline)
    (resendData_parked c deadline)

theorem prompt_keepAlive (prompt : Prompt c.sender) : Prompt (c.keepAlive ctx).value.sender := by
  unfold keepAlive
  split
  · unfold ping
    rw [Logged.value_bind, checkConnected_sender]
    exact prompt
  · exact prompt

theorem prompt_closeWindow (prompt : Prompt c.sender) :
    Prompt (c.closeWindow ctx).value.sender := by
  unfold closeWindow
  split
  · exact prompt
  · dsimp only
    split
    · exact prompt_flush ctx _
    · exact prompt

theorem prompt_tick (prompt : Prompt c.sender) : Prompt (c.tick ctx).value.1.sender := by
  unfold tick
  split
  · exact prompt
  · dsimp only
    have resent := prompt_resendData ctx (ctx.now + c.retransmitTimeout ctx.config) prompt
    rw [Logged.value_bind]
    generalize (c.resendData ctx (ctx.now + c.retransmitTimeout ctx.config)).value = x at resent ⊢
    obtain ⟨d, exhausted⟩ := x
    dsimp only at resent ⊢
    split
    · exact resent
    · have asked : Prompt (d.resendReset ctx (ctx.now + c.retransmitTimeout ctx.config)).value.1.sender := by
        rw [resendReset_sender]
        exact resent
      rw [Logged.value_bind]
      generalize (d.resendReset ctx (ctx.now + c.retransmitTimeout ctx.config)).value = y at asked ⊢
      obtain ⟨f, exhausted⟩ := y
      dsimp only at asked ⊢
      split
      · exact asked
      · exact prompt_closeWindow (prompt_keepAlive asked)

theorem prompt_apply (ctx : Context) (op : Op) (prompt : Prompt c.sender) :
    Prompt (c.apply ctx op).value.sender := by
  cases op with
  | packet p => exact prompt_onPacket p prompt
  | write w => exact prompt_write w prompt
  | ping =>
    show Prompt ((c.transmit ctx _).value.checkConnected).value.sender
    rw [checkConnected_sender]
    exact prompt
  | tick => exact prompt_tick prompt
  | destroy reason => exact .inl rfl

end Prompt

section Tunings

/-- Tunes the send queue by the given rates and sends what fits then. -/
def retune (c : Channel) (ctx : Context) (rates : Rates) : Logged Effect Channel :=
  (c.tune ctx.config rates).flush ctx

/-- A tick that closes a window tunes by the rates in it. -/
theorem closeWindow_eq_retune {meter : RateMeter} (complete : c.meter.roll? ctx.now = some meter)
    (auto : ctx.config.autoTuneQueueSize = true) :
    c.closeWindow ctx = { c with meter }.retune ctx meter.last := by
  simp only [closeWindow, complete, auto, if_true]
  rfl

/-- The channels that operations at any times lead to, where a send queue may also be tuned by any
rates at any time. -/
inductive Reached (config : Config) (clock : Clock) : Channel → Prop
  | create (key : Key) (generation now : Nat) :
      Reached config clock (create key generation config now)
  | apply {c : Channel} (now : Nat) (op : Op) (before : Reached config clock c) :
      Reached config clock (c.apply ⟨now, config, clock⟩ op).value
  | retune {c : Channel} (now : Nat) (rates : Rates) (before : Reached config clock c) :
      Reached config clock (c.retune ⟨now, config, clock⟩ rates).value

theorem Reached.run {config : Config} {clock : Clock} (reached : Reached config clock c)
    (ops : List (Nat × Op)) : Reached config clock (Channel.run config clock ops c).value := by
  induction ops generalizing c with
  | nil => exact reached
  | cons step ops ih => exact ih (reached.apply step.1 step.2)

theorem Reached.prompt {config : Config} {clock : Clock} (reached : Reached config clock c) :
    Prompt c.sender := by
  induction reached with
  | create => exact .inl rfl
  | apply now op _ ih => exact prompt_apply _ op ih
  | retune now rates _ => exact prompt_flush _ _

/-- While writes are parked, the send queue is at its limit or above, or it holds a stream start that
is not acknowledged. -/
theorem parked_without_room {config : Config} {clock : Clock} (reached : Reached config clock c)
    (parked : c.sender.parked ≠ []) :
    c.sender.unacked.limit ≤ c.sender.unacked.length ∨
      c.sender.unacked.contains .streamStart = true := by
  rcases reached.prompt with none | full
  · exact absurd none parked
  · exact canSend_eq_false_iff.mp full

/-- A queue for one packet, which tuning may enlarge to two. -/
def narrow : Config := { defaultQueueSize := 1, maxQueueSize := 2 }

/-- The stream start is acknowledged, three more writes are made, and the queue is enlarged. -/
def crowded : Channel :=
  let started := Packet.data 1 .streamStart 0 [1]
  let written := run narrow ⟨0, 0⟩
    [(0, .write ⟨0, [1]⟩), (0, .packet started.ack), (0, .write ⟨1, [2]⟩), (0, .write ⟨2, [3]⟩),
      (0, .write ⟨3, [4]⟩)] (create ⟨⟨.v4 1, 1⟩, 1⟩ 1 narrow 0)
  (written.value.retune ⟨0, narrow, ⟨0, 0⟩⟩ ⟨31, 0⟩).value

/-- One of the two writes that were parked is sent, and the other one still waits. -/
theorem parked_without_room_of_crowded :
    Reached narrow ⟨0, 0⟩ crowded ∧ crowded.sender.parked = [⟨3, [4]⟩] ∧
      (crowded.sender.unacked.limit ≤ crowded.sender.unacked.length ∨
        crowded.sender.unacked.contains .streamStart = true) := by
  have reached : Reached narrow ⟨0, 0⟩ crowded := ((Reached.create _ _ _).run _).retune _ _
  have parked : crowded.sender.parked = [⟨3, [4]⟩] := by decide +kernel
  exact ⟨reached, parked, parked_without_room reached (by simp [parked])⟩

end Tunings

section Patient

structure Patient (s : Sender) : Prop where
  room : 0 < s.unacked.limit
  waits : s.parked = [] ∨ s.canSend = false

/-- Nothing is parked behind an empty send queue. -/
theorem Patient.parked_eq_nil (patient : Patient s) (empty : s.unacked.contents = []) :
    s.parked = [] := by
  rcases patient.waits with none | full
  · exact none
  · have entries : s.unacked.entries = [] := List.map_eq_nil_iff.mp empty
    have room := patient.room
    simp only [Sender.canSend, SendQueue.isFull, SendQueue.length, SendQueue.contains, entries,
      List.length_nil, List.any_nil, Bool.not_false, Bool.and_true, Bool.not_eq_false',
      decide_eq_true_eq] at full
    omega

theorem patient_create (key : Key) (generation now : Nat) {config : Config}
    (valid : 0 < config.defaultQueueSize) : Patient (create key generation config now).sender :=
  ⟨valid, .inl rfl⟩

/-- Tuning leaves at least the default limit, which is not zero. -/
theorem tune_limit_pos {config : Config} (rates : Rates) (valid : 0 < config.defaultQueueSize)
    (room : 0 < c.sender.unacked.limit) :
    0 < (c.tune config rates).sender.unacked.limit := by
  unfold tune
  dsimp only
  split
  · exact room
  · split
    · show 0 < min (c.sender.unacked.limit + 8) config.maxQueueSize
      omega
    · split
      · show 0 < max (c.sender.unacked.limit - 8) config.defaultQueueSize
        omega
      · exact room

/-- Only a tick may change the limit. -/
theorem Move.limit_pos (move : Move ctx op c log ws c')
    (valid : op = .tick → 0 < ctx.config.defaultQueueSize) (room : 0 < c.sender.unacked.limit) :
    0 < c'.sender.unacked.limit := by
  cases move with
  | settle _ found => exact (SendQueue.limit_remove? found).symm ▸ room
  | resendData => rwa [resendData_limit]
  | tune => exact tune_limit_pos _ (valid rfl) room
  | accept | acceptStart | resendReset => simpa using room
  | requestReset _ _ idle => simpa [requestReset_idle idle] using room
  | _ => exact room

theorem Moves.limit_pos (moves : Moves ctx op c log ws c')
    (valid : op = .tick → 0 < ctx.config.defaultQueueSize) (room : 0 < c.sender.unacked.limit) :
    0 < c'.sender.unacked.limit := by
  induction moves with
  | none => exact room
  | snoc _ last ih => exact last.limit_pos valid ih

theorem patient_onPacket (p : Packet) (patient : Patient c.sender) :
    Patient (c.onPacket ctx p).value.sender :=
  ⟨(moves_onPacket ctx c p).limit_pos nofun patient.room, prompt_onPacket p patient.waits⟩

theorem patient_apply (ctx : Context) (op : Op) (valid : 0 < ctx.config.defaultQueueSize)
    (patient : Patient c.sender) : Patient (c.apply ctx op).value.sender := by
  refine ⟨?_, prompt_apply ctx op patient.waits⟩
  cases op with
  | packet p => exact (patient_onPacket p patient).room
  | write w => exact (moves_write ctx c w).limit_pos nofun patient.room
  | ping => exact (moves_ping ctx c .ping (.inl rfl)).limit_pos nofun patient.room
  | tick => exact (moves_tick ctx c).limit_pos (fun _ => valid) patient.room
  | destroy reason => exact patient.room

end Patient

end Channel

end ReliableDatagram
