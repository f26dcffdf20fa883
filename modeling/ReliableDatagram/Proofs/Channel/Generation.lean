import ReliableDatagram.Proofs.Channel.Decomposition

/-!
# Generations are names only

A channel carries its generation for those who hold handles to it. Nothing that it does depends on
the generation: renaming the generation before an operation or after it comes to the same.
-/

namespace ReliableDatagram.Channel

/-- The same channel under another generation. -/
def withGeneration (generation : Nat) (c : Channel) : Channel := { c with generation }

/-- Renaming what a computation goes on from renames what comes out if the rest does so. -/
theorem rename_bind {α β : Type} {r : α → α} {r' : β → β} {x : Logged Effect α}
    {f : α → Logged Effect β} (rest : f (r x.value) = r' <$> f x.value) :
    (r <$> x >>= f) = r' <$> (x >>= f) := by
  show Logged.mk (f (r x.value)).value (x.log ++ (f (r x.value)).log) = _
  rw [rest]
  rfl

/-- A step of a channel does not depend on the generation. -/
def Blind (f : Channel → Logged Effect Channel) : Prop :=
  ∀ g c, f (c.withGeneration g) = withGeneration g <$> f c

namespace Blind

variable {f h : Channel → Logged Effect Channel} {ctx : Context}

theorem bind (first : Blind f) (second : Blind h) : Blind fun c => f c >>= h := by
  intro g c
  show (f (c.withGeneration g) >>= h) = withGeneration g <$> (f c >>= h)
  rw [first]
  exact rename_bind (second g _)

/-- A step that first changes the channel and then goes on. -/
theorem comp {u : Channel → Channel} (second : Blind h)
    (same : ∀ g c, u (c.withGeneration g) = (u c).withGeneration g) :
    Blind fun c => h (u c) := by
  intro g c
  show h (u (c.withGeneration g)) = _
  rw [same, second]

/-- A step that logs something first. -/
theorem log {l : Channel → List Effect} (second : Blind h)
    (same : ∀ g c, l (c.withGeneration g) = l c) :
    Blind fun c => ⟨(h c).value, l c ++ (h c).log⟩ := by
  intro g c
  show Logged.mk (h (c.withGeneration g)).value (l (c.withGeneration g) ++ _) = _
  rw [same, second]
  rfl

theorem ite {p : Channel → Prop} [DecidablePred p]
    (same : ∀ g c, p (c.withGeneration g) ↔ p c) (yes : Blind f) (no : Blind h) :
    Blind fun c => if p c then f c else h c := by
  intro g c
  by_cases holds : p c
  · simpa only [if_pos holds, if_pos ((same g c).mpr holds)] using yes g c
  · simpa only [if_neg holds, if_neg (mt (same g c).mp holds)] using no g c

theorem idle : Blind pure := fun _ _ => rfl

theorem transmit (packet : Packet) : Blind (·.transmit ctx packet) := fun _ _ => rfl

theorem checkConnected : Blind Channel.checkConnected :=
  ite (p := fun c => c.phase = .fresh ∧ c.hasSent ∧ c.hasReceived) (fun _ _ => Iff.rfl)
    (fun _ _ => rfl) idle

theorem ping : Blind (·.ping ctx) := fun g c =>
  (transmit (.ping c.key.channel ctx.timestamp pingPayload)).bind checkConnected g c

theorem sendWrite (w : ParkedWrite) : Blind (·.sendWrite ctx w) := fun _ _ => rfl

theorem release (ws : List ParkedWrite) : Blind (Channel.release ctx ws) := by
  induction ws with
  | nil => exact fun _ _ => rfl
  | cons w ws ih =>
    exact ite (p := fun c => c.sender.canSend = true) (fun _ _ => Iff.rfl)
      ((sendWrite w).bind ih) fun _ _ => rfl

theorem flush : Blind (·.flush ctx) := fun g c => release c.sender.parked g c

theorem sendOrPark (w : ParkedWrite) : Blind (·.sendOrPark ctx w) :=
  ite (p := fun c => (c.sender.parked.isEmpty && c.sender.canSend) = true) (fun _ _ => Iff.rfl)
    (sendWrite w)
    (ite (p := fun c => c.sender.parked.length < ctx.config.maxWriteQueue) (fun _ _ => Iff.rfl)
      (fun _ _ => rfl) fun _ _ => rfl)

theorem write (w : ParkedWrite) : Blind (·.write ctx w) :=
  ite (p := fun c => c.phase = .closed) (fun _ _ => Iff.rfl) (fun _ _ => rfl)
    ((sendOrPark w).bind checkConnected)

theorem onAck (header : Packet.Header) : Blind (·.onAck ctx header) := by
  intro g c
  have sender : (c.withGeneration g).sender = c.sender := rfl
  show (c.withGeneration g).onAck ctx header = withGeneration g <$> c.onAck ctx header
  cases found : c.sender.unacked.remove? header.id with
  | none =>
    simp only [Channel.onAck, sender, found]
    rfl
  | some x =>
    simp only [Channel.onAck, sender, found]
    exact flush.comp (u := fun c => { c with
      counters.acksReceived := c.counters.acksReceived + 1
      sender.unacked := x.2
      rtt := if x.1.attempts = 0 then
        c.rtt.onSample (ctx.clock.elapsedSince header.timestamp ctx.now) else c.rtt })
      (fun _ _ => rfl) g c

theorem onAckPing (header : Packet.Header) : Blind (·.onAckPing ctx header) := fun _ _ => rfl

theorem onReset (p : Packet) : Blind (·.onReset ctx p) :=
  (transmit p.ackReset).bind <|
    (flush.comp (u := fun c => { c with sender := c.sender.startOver }) fun _ _ => rfl).log
      (l := fun c => [.emit (.resetLocal c.key)]) fun _ _ => rfl

theorem accept (p : Packet) : Blind (·.accept ctx p) :=
  (transmit p.ack).bind (checkConnected.bind fun _ _ => rfl)

theorem acceptStart (p : Packet) : Blind (·.acceptStart ctx p) :=
  (accept p).comp (u := fun c => { c with receiver := c.receiver.start p.header.timestamp })
    fun _ _ => rfl

theorem startOver : Blind (·.startOver ctx) :=
  (flush.comp (u := fun c => { c with sender := c.sender.startOver, receiver := {} })
    fun _ _ => rfl).log (l := fun c => [.emit (.resetLocal c.key)]) fun _ _ => rfl

theorem requestReset : Blind (·.requestReset ctx) :=
  ite (p := fun c => c.receiver.pendingReset.isSome = true) (fun _ _ => Iff.rfl) idle
    fun _ _ => rfl

theorem onData (p : Packet) : Blind (·.onData ctx p) := by
  intro g c
  show Channel.onData (c.withGeneration g) ctx p = withGeneration g <$> c.onData ctx p
  have place : (c.withGeneration g).receiver = c.receiver := rfl
  simp only [Channel.onData, place]
  cases c.receiver.place ctx.config.receiveWindow p.header.id p.header.timestamp with
  | start => exact acceptStart p g c
  | restart => exact startOver.bind (acceptStart p) g c
  | unplaced => exact requestReset g c
  | next => exact accept p g c
  | _ => rfl

theorem onAckReset : Blind Channel.onAckReset :=
  ite (p := fun c => c.receiver.pendingReset.isSome = true) (fun _ _ => Iff.rfl)
    (fun _ _ => rfl) idle

theorem dispatch (p : Packet) : Blind (·.dispatch ctx p) := by
  intro g c
  simp only [Channel.dispatch]
  cases p.header.kind with
  | data => exact onData p g c
  | ack => exact onAck p.header g c
  | reset => exact onReset p g c
  | ackReset => exact onAckReset g c
  | ping => exact transmit p.ackPing g c
  | ackPing => exact onAckPing p.header g c

theorem onPacket (p : Packet) : Blind (·.onPacket ctx p) :=
  ((dispatch p).bind checkConnected).comp
    (u := fun c => { c with hasReceived := true, lastReceived := ctx.now }) fun _ _ => rfl

theorem keepAlive : Blind (·.keepAlive ctx) :=
  ite (p := fun c => ctx.config.keepAliveInterval ≤ ctx.now - c.lastSent) (fun _ _ => Iff.rfl)
    ping idle

theorem tune (config : Config) (rates : Rates) :
    Blind fun c => pure (c.tune config rates) := by
  intro g c
  have sender : (c.withGeneration g).sender = c.sender := rfl
  have same : (c.withGeneration g).tune config rates =
      (c.tune config rates).withGeneration g := by
    simp only [Channel.tune, sender]
    split
    · rfl
    · split
      · rfl
      · split <;> rfl
  exact congrArg pure same

theorem closeWindow : Blind (·.closeWindow ctx) := by
  intro g c
  have meter : (c.withGeneration g).meter = c.meter := rfl
  show (c.withGeneration g).closeWindow ctx = withGeneration g <$> c.closeWindow ctx
  cases complete : c.meter.roll? ctx.now with
  | none =>
    simp only [Channel.closeWindow, meter, complete]
    rfl
  | some rolled =>
    simp only [Channel.closeWindow, meter, complete]
    by_cases tunes : ctx.config.autoTuneQueueSize = true
    · simp only [tunes, if_true]
      exact (tune ctx.config rolled.last).bind flush g { c with meter := rolled }
    · simp only [tunes, Bool.false_eq_true, if_false]
      rfl

end Blind

section Ticks

variable {ctx : Context} {c : Channel}

/-- The outcome of a pass under another generation. -/
def outcomeWithGeneration {α : Type} (g : Nat) (x : Channel × α) : Channel × α :=
  (x.1.withGeneration g, x.2)

theorem resendData_withGeneration (g deadline : Nat) :
    (c.withGeneration g).resendData ctx deadline =
      outcomeWithGeneration g <$> c.resendData ctx deadline := by
  have sender : (c.withGeneration g).sender = c.sender := rfl
  simp only [resendData, sender]
  split <;> rfl

theorem resendReset_withGeneration (g deadline : Nat) :
    (c.withGeneration g).resendReset ctx deadline =
      outcomeWithGeneration g <$> c.resendReset ctx deadline := by
  have receiver : (c.withGeneration g).receiver = c.receiver := rfl
  cases pending : c.receiver.pendingReset with
  | none =>
    simp only [resendReset, receiver, pending]
    rfl
  | some r =>
    simp only [resendReset, receiver, pending]
    split
    · rfl
    · split <;> rfl

theorem tick_withGeneration (g : Nat) :
    (c.withGeneration g).tick ctx = outcomeWithGeneration g <$> c.tick ctx := by
  have lastReceived : (c.withGeneration g).lastReceived = c.lastReceived := rfl
  have timeout : (c.withGeneration g).retransmitTimeout ctx.config =
    c.retransmitTimeout ctx.config := rfl
  simp only [tick, lastReceived, timeout, resendData_withGeneration]
  split
  · rfl
  · refine rename_bind ?_
    generalize (c.resendData ctx (ctx.now + c.retransmitTimeout ctx.config)).value = resent
    obtain ⟨d, exhausted⟩ := resent
    cases exhausted with
    | true => rfl
    | false =>
      simp only [outcomeWithGeneration, Bool.false_eq_true, if_false, resendReset_withGeneration]
      refine rename_bind ?_
      generalize (d.resendReset ctx (ctx.now + c.retransmitTimeout ctx.config)).value = asked
      obtain ⟨e, exhausted⟩ := asked
      cases exhausted with
      | true => rfl
      | false =>
        have kept : (e.withGeneration g).keepAlive ctx = withGeneration g <$> e.keepAlive ctx :=
          Blind.keepAlive g e
        simp only [outcomeWithGeneration, Bool.false_eq_true, if_false, kept]
        refine rename_bind ?_
        generalize (e.keepAlive ctx).value = k
        have closed : (k.withGeneration g).closeWindow ctx =
          withGeneration g <$> k.closeWindow ctx := Blind.closeWindow g k
        rw [closed]
        exact rename_bind rfl

end Ticks

end ReliableDatagram.Channel
