import Mathlib.Algebra.GroupWithZero.Nat
import ReliableDatagram.Proofs.Channel.Capacity
import ReliableDatagram.Proofs.Channel.Courses
import ReliableDatagram.Proofs.Channel.Intake

/-!
# What the counters of a channel count

The counters of what is sent and delivered go with the log: `gains_apply`. Packets that are sent again
are counted after a whole pass over the send queue, so that a tick that gives up in the middle of one
is no part of this. The data packets that arrive are delivered, dropped, buffered, ignored or thrown
away later, each of them once: `Intake.hear_balance`.
-/

namespace ReliableDatagram

/-- The length of a write that is answered because its packet was sent. -/
def Effect.confirmed? : Effect → Option Nat
  | .reply _ (.ok length) => some length
  | _ => none

theorem totalLength_append (xs ys : List Bytes) :
    totalLength (xs ++ ys) = totalLength xs + totalLength ys := by
  induction xs with
  | nil => exact (Nat.zero_add _).symm
  | cons x xs ih =>
    show x.length + totalLength (xs ++ ys) = x.length + totalLength xs + totalLength ys
    rw [ih, Nat.add_assoc]

namespace Channel

variable {ctx : Context} {op : Op} {c c' c'' : Channel} {log log' : List Effect}
  {ws : List ParkedWrite} {p : Packet} {window : Nat}

/-- The lengths of the writes that are answered because their packets were sent. -/
def confirmed (log : List Effect) : List Nat := log.filterMap Effect.confirmed?

@[simp] theorem confirmed_append (log log' : List Effect) :
    confirmed (log ++ log') = confirmed log ++ confirmed log' := List.filterMap_append

theorem confirmed_eq_nil (silent : ∀ ticket length, .reply ticket (.ok length) ∉ log) :
    confirmed log = [] := by
  refine List.filterMap_eq_nil_iff.mpr fun e logged => ?_
  cases e with
  | reply ticket result =>
    cases result with
    | ok length => exact absurd logged (silent ticket length)
    | error _ => rfl
  | _ => rfl

section Gains

/-- The counters of what is sent and delivered grow with the log. -/
structure Gains (k : Counters) (log : List Effect) (k' : Counters) : Prop where
  packetsSent : k'.packetsSent = k.packetsSent + (confirmed log).length
  bytesSent : k'.bytesSent = k.bytesSent + (confirmed log).sum
  copies : k'.packetsSent + k'.repeated =
    k.packetsSent + k.repeated + (sentIds .data log).length
  packetsReceived : k'.packetsReceived = k.packetsReceived + (payloads log).length
  bytesReceived : k'.bytesReceived = k.bytesReceived + totalLength (payloads log)

variable {k k' k'' : Counters}

namespace Gains

theorem refl (k : Counters) : Gains k [] k := ⟨rfl, rfl, rfl, rfl, rfl⟩

theorem trans (first : Gains k log k') (second : Gains k' log' k'') :
    Gains k (log ++ log') k'' := by
  constructor
  · rw [second.packetsSent, first.packetsSent, confirmed_append, List.length_append, Nat.add_assoc]
  · rw [second.bytesSent, first.bytesSent, confirmed_append, List.sum_append, Nat.add_assoc]
  · rw [second.copies, first.copies, sentIds_append, List.length_append, Nat.add_assoc]
  · rw [second.packetsReceived, first.packetsReceived, payloads_append, List.length_append,
      Nat.add_assoc]
  · rw [second.bytesReceived, first.bytesReceived, payloads_append, totalLength_append,
      Nat.add_assoc]

/-- What is logged is none of what is counted. -/
theorem of_idle (k : Counters) (unsent : sentIds .data log = []) (unconfirmed : confirmed log = [])
    (undelivered : payloads log = []) : Gains k log k := by
  constructor <;> simp [unsent, unconfirmed, undelivered, totalLength]

theorem drop (gains : Gains k log k') (dropped : Nat) : Gains k log { k' with dropped } :=
  ⟨gains.packetsSent, gains.bytesSent, gains.copies, gains.packetsReceived, gains.bytesReceived⟩

end Gains

/-- A packet that carries no data is not counted. -/
theorem gains_send (k : Counters) (target : SocketAddr) (kind : p.header.kind ≠ .data) :
    Gains k [.send target p.encode] k :=
  .of_idle k (by rw [sentIds_send, if_neg kind]) rfl rfl

theorem gains_sendWrite (c : Channel) (w : ParkedWrite) :
    Gains c.counters (c.sendWrite ctx w).log (c.sendWrite ctx w).value.counters := by
  refine ⟨rfl, rfl, ?_, rfl, rfl⟩
  rw [sentIds_sendWrite, if_pos rfl]
  exact Nat.add_right_comm _ _ _

theorem counters_checkConnected (c : Channel) :
    c.checkConnected.value.counters = c.counters := by
  unfold checkConnected
  split <;> rfl

/-- The payloads that are delivered are counted as such. -/
theorem counters_accept (c : Channel) (p : Packet) :
    (c.accept ctx p).value.counters = { c.counters with
      packetsReceived := c.counters.packetsReceived + (payloads (c.accept ctx p).log).length
      bytesReceived := c.counters.bytesReceived + totalLength (payloads (c.accept ctx p).log) } := by
  rw [payloads_accept]
  unfold Channel.accept
  rw [Logged.value_bind, Logged.value_bind, checkConnected_receiver, counters_checkConnected]
  rfl

theorem gains_accept (c : Channel) (p : Packet) :
    Gains c.counters (c.accept ctx p).log (c.accept ctx p).value.counters := by
  have unsent : sentIds .data (c.accept ctx p).log = [] := by
    rw [sentIds_accept, if_neg nofun]
  have unconfirmed : confirmed (c.accept ctx p).log = [] :=
    confirmed_eq_nil fun ticket length logged => by
      rcases mem_accept_log c p logged with same | same | ⟨_, same⟩ <;> cases same
  rw [counters_accept]
  constructor <;> simp [unsent, unconfirmed]

theorem gains_resendReset (labelled : c.Labelled) (deadline : Nat) :
    Gains c.counters (c.resendReset ctx deadline).log
      (c.resendReset ctx deadline).value.1.counters := by
  have same : (c.resendReset ctx deadline).value.1.counters = c.counters := by
    rcases resendReset_value ctx c deadline with same | ⟨_, _, _, same⟩ <;> rw [same]
  rw [same]
  refine .of_idle _ (sentIds_resendReset_of_ne deadline labelled nofun) ?_ ?_
  · refine confirmed_eq_nil fun ticket length logged => ?_
    obtain ⟨_, _, other⟩ := mem_resendReset_log _ _ _ logged
    cases other
  · refine payloads_eq_nil fun e logged => ?_
    obtain ⟨_, _, rfl⟩ := mem_resendReset_log _ _ _ logged
    rfl

/-- Only a tick sends data packets again. -/
theorem Move.gains (move : Move ctx op c log ws c') (brief : op ≠ .tick) :
    Gains c.counters log c'.counters := by
  cases move with
  | resendData | resendReset | roll | tune => exact absurd rfl brief
  | accept => exact gains_accept c _
  | @acceptStart p =>
    exact gains_accept { c with receiver := c.receiver.start p.header.timestamp } p
  | send => exact gains_sendWrite (c.withParked _) _
  | say speech =>
    refine gains_send _ _ ?_
    cases speech <;> exact Packet.Kind.noConfusion
  | @confirm p => exact (gains_send (p := p.ack) c.counters c.key.addr nofun).drop _
  | @keep p => exact gains_send (p := p.ack) c.counters c.key.addr nofun
  | measure =>
    refine .of_idle _ ((silent_onAckPing c _).sentIds _) ?_ ?_
    · refine confirmed_eq_nil fun ticket length logged => ?_
      obtain ⟨_, other⟩ := mem_onAckPing_log logged
      cases other
    · refine payloads_eq_nil fun e logged => ?_
      obtain ⟨_, rfl⟩ := mem_onAckPing_log logged
      rfl
  | requestReset _ _ idle =>
    rw [requestReset_idle idle]
    exact (gains_send (p := Packet.reset c.key.channel ctx.timestamp) c.counters c.key.addr
      nofun).trans (.of_idle _ rfl rfl rfl)
  | _ => exact ⟨rfl, rfl, rfl, rfl, rfl⟩

theorem Moves.gains (moves : Moves ctx op c log ws c') (brief : op ≠ .tick) :
    Gains c.counters log c'.counters := by
  induction moves with
  | none => exact .refl _
  | snoc _ last ih => exact ih.trans (last.gains brief)

/-- A complete pass over the send queue counts what it sends. -/
theorem gains_resendData (labelled : c.Labelled) {deadline : Nat}
    (complete : (c.resendData ctx deadline).value.2 = false) :
    Gains c.counters (c.resendData ctx deadline).log
      (c.resendData ctx deadline).value.1.counters := by
  have unconfirmed : confirmed (c.resendData ctx deadline).log = [] :=
    confirmed_eq_nil fun ticket length logged => by
      obtain ⟨_, _, other⟩ := mem_resendData_log c deadline logged
      cases other
  have undelivered : payloads (c.resendData ctx deadline).log = [] :=
    payloads_eq_nil fun e logged => by
      obtain ⟨_, _, rfl⟩ := mem_resendData_log c deadline logged
      rfl
  have counted : (c.resendData ctx deadline).value.1.counters = { c.counters with
      repeated := c.counters.repeated +
        (sentIds .data (c.resendData ctx deadline).log).length } := by
    rw [sentIds_resendData labelled, List.length_map]
    unfold resendData at complete ⊢
    dsimp only at complete ⊢
    rw [complete, Bool.or_false]
    split
    · next none =>
      rw [List.isEmpty_iff.mp none]
      rfl
    · rfl
  rw [counted]
  constructor <;> simp [unconfirmed, undelivered, totalLength, Nat.add_assoc]

theorem gains_flush (ctx : Context) (c : Channel) :
    Gains c.counters (c.flush ctx).log (c.flush ctx).value.counters :=
  (moves_flush c .ping).gains nofun

theorem gains_keepAlive (c : Channel) :
    Gains c.counters (c.keepAlive ctx).log (c.keepAlive ctx).value.counters := by
  unfold keepAlive
  split
  · exact (moves_ping ctx c .ping (.inl rfl)).gains nofun
  · exact .refl _

theorem gains_closeWindow (c : Channel) :
    Gains c.counters (c.closeWindow ctx).log (c.closeWindow ctx).value.counters := by
  unfold closeWindow
  split
  · exact .refl _
  · next meter _ =>
    dsimp only
    split
    · have tuned : ({ c with meter }.tune ctx.config meter.last).counters = c.counters := by
        obtain ⟨limit, same⟩ := { c with meter }.tune_eq ctx.config meter.last
        rw [same]
      have flushed := gains_flush ctx ({ c with meter }.tune ctx.config meter.last)
      rwa [tuned] at flushed
    · exact .refl _

/-- A tick that does not give up goes through all its parts. -/
theorem tick_of_lasts (lasts : (c.tick ctx).value.2 = none) :
    let deadline := ctx.now + c.retransmitTimeout ctx.config
    let resent := c.resendData ctx deadline
    let asked := resent.value.1.resendReset ctx deadline
    let kept := asked.value.1.keepAlive ctx
    let closed := kept.value.closeWindow ctx
    resent.value.2 = false ∧
      (c.tick ctx).log = resent.log ++ (asked.log ++ (kept.log ++ closed.log)) ∧
      (c.tick ctx).value.1 = closed.value := by
  unfold tick at lasts ⊢
  dsimp only
  split at lasts
  · cases lasts
  · next recent =>
    rw [if_neg recent]
    simp only [Logged.value_bind, Logged.log_bind] at lasts ⊢
    split at lasts
    · cases lasts
    · next live =>
      rw [if_neg live]
      simp only [Logged.value_bind, Logged.log_bind] at lasts ⊢
      split at lasts
      · cases lasts
      · next live' =>
        rw [if_neg live']
        simp only [Logged.value_bind, Logged.log_bind, Logged.value_pure, Logged.log_pure,
          List.append_nil, and_true]
        simpa using live

theorem gains_tick (labelled : c.Labelled) (lasts : (c.tick ctx).value.2 = none) :
    Gains c.counters (c.tick ctx).log (c.tick ctx).value.1.counters := by
  obtain ⟨complete, log, value⟩ := tick_of_lasts lasts
  rw [log, value]
  exact (gains_resendData labelled complete).trans ((gains_resendReset (Move.resendData.labelled labelled) _).trans
    ((gains_keepAlive _).trans (gains_closeWindow _)))

/-- As long as the channel lives on, the counters of what it sends and delivers go with its log. -/
theorem gains_apply (labelled : c.Labelled) (alive : op.isDestroy = false)
    (lasts : op = .tick → (c.tick ctx).value.2 = none) :
    Gains c.counters (c.apply ctx op).log (c.apply ctx op).value.counters := by
  by_cases tick : op = .tick
  · subst tick
    exact gains_tick labelled (lasts rfl)
  · rcases apply_cases ctx op c with ⟨ws, moves⟩ | ⟨reason, rfl⟩
    · exact moves.gains tick
    · cases alive

end Gains

section Acks

theorem acksReceived_resendData (c : Channel) (deadline : Nat) :
    (c.resendData ctx deadline).value.1.counters.acksReceived = c.counters.acksReceived := by
  unfold resendData
  dsimp only
  split <;> rfl

/-- Nothing but an acknowledgement is counted as one. -/
theorem Move.acksReceived (move : Move ctx op c log ws c')
    (other : ∀ p, op = .packet p → p.header.kind ≠ .ack) :
    c'.counters.acksReceived = c.counters.acksReceived := by
  cases move with
  | settle kind | strayAck kind => exact absurd kind (other _ rfl)
  | accept => rw [counters_accept]
  | @acceptStart p =>
    show ({ c with receiver := c.receiver.start p.header.timestamp }.accept
      ctx p).value.counters.acksReceived = _
    rw [counters_accept]
  | requestReset _ _ idle => rw [requestReset_idle idle]
  | resendData => exact acksReceived_resendData c _
  | resendReset =>
    rcases resendReset_value ctx c (ctx.now + c.retransmitTimeout ctx.config) with
      same | ⟨_, _, _, same⟩ <;> rw [same]
  | tune =>
    obtain ⟨limit, same⟩ := c.tune_eq ctx.config c.meter.last
    rw [same]
  | _ => rfl

theorem Moves.acksReceived (moves : Moves ctx op c log ws c')
    (other : ∀ p, op = .packet p → p.header.kind ≠ .ack) :
    c'.counters.acksReceived = c.counters.acksReceived := by
  induction moves with
  | none => rfl
  | snoc _ last ih => exact (last.acksReceived other).trans ih

theorem acksReceived_apply (ctx : Context) (c : Channel) (alive : op.isDestroy = false)
    (other : ∀ p, op = .packet p → p.header.kind ≠ .ack) :
    (c.apply ctx op).value.counters.acksReceived = c.counters.acksReceived := by
  rcases apply_cases ctx op c with ⟨ws, moves⟩ | ⟨reason, rfl⟩
  · exact moves.acksReceived other
  · cases alive

/-- Every acknowledgement is counted once, whatever it acknowledges. -/
theorem acksReceived_onPacket (ctx : Context) (c : Channel) (kind : p.header.kind = .ack) :
    (c.onPacket ctx p).value.counters.acksReceived = c.counters.acksReceived + 1 := by
  have dispatched : (c.onPacket ctx p).value =
      ((c.heard ctx).onAck ctx p.header).value.checkConnected.value := by
    unfold onPacket dispatch
    rw [kind]
    rfl
  rw [dispatched, counters_checkConnected]
  unfold onAck
  dsimp only
  split
  · rfl
  · exact (moves_flush _ .ping).acksReceived nofun

end Acks

section Balance

namespace Intake

variable {i : Intake}

/-- The data packets that were delivered, dropped or are buffered. -/
def settled (i : Intake) : Nat := i.packetsReceived + i.dropped + i.early.length

/-- The number of payloads that are thrown away because a stream ends before they could be
delivered. -/
def discards (window : Nat) (p : Packet) (i : Intake) : Nat :=
  match p.header.kind with
  | .data => if i.place window p = .restart then i.early.length else 0
  | .ackReset => if i.asking then i.early.length else 0
  | _ => 0

/-- A data packet is ignored that comes before the start of its stream. -/
def ignores (window : Nat) (p : Packet) (i : Intake) : Bool :=
  p.header.kind = .data && i.place window p = .unplaced

theorem settled_accept (distinct : i.early.Distinct) (p : Packet) :
    (i.accept p).value.settled = i.settled + 1 := by
  have drained := distinct.length_drain p.header.id.next
  show i.packetsReceived + ((i.early.drain p.header.id.next).1.length + 1) + i.dropped +
    (i.early.drain p.header.id.next).2.2.length = i.packetsReceived + i.dropped + i.early.length + 1
  omega

theorem settled_clear (i : Intake) : i.clear.settled + i.early.length = i.settled := rfl

theorem settled_drop (i : Intake) : i.drop.settled = i.settled + 1 :=
  Nat.add_right_comm (i.packetsReceived + i.dropped) 1 i.early.length

theorem settled_ask (i : Intake) : i.ask.value.settled = i.settled := by
  unfold ask
  split <;> rfl

theorem settled_keep (place : i.place window p = .early) : (i.keep p).settled = i.settled + 1 := by
  have missing : i.early.contains p.header.id = false :=
    Receiver.not_contains_of_place_eq_early place
  have kept := ReceiveQueue.length_insert missing p.payload
  show _ + (i.early.insert p.header.id p.payload).length = _
  rw [kept]
  rfl

/-- A data packet is delivered, dropped, buffered or ignored, and what is buffered stays so until it
is delivered or discarded. -/
theorem onData_balance (distinct : i.early.Distinct) (window : Nat) (p : Packet) :
    (i.onData window p).value.settled +
        (if i.place window p = .restart then i.early.length else 0) +
        (decide (i.place window p = .unplaced)).toNat = i.settled + 1 := by
  unfold onData
  cases place : i.place window p with
  | start => exact settled_accept (i := i.start p.header.timestamp) distinct p
  | restart =>
    have accepted := settled_accept (i := i.clear.start p.header.timestamp)
      ReceiveQueue.distinct_empty p
    have cleared := settled_clear i
    show ((i.clear.start p.header.timestamp).accept p).value.settled + i.early.length = _
    rw [accepted, ← cleared]
    exact Nat.add_right_comm _ _ _
  | unplaced => exact congrArg (· + 1) (settled_ask i)
  | next => exact settled_accept distinct p
  | early => exact settled_keep place
  | _ => exact settled_drop i

theorem hear_balance (distinct : i.early.Distinct) (window : Nat) (p : Packet) :
    (i.hear window p).value.settled + i.discards window p + (i.ignores window p).toNat =
      i.settled + (decide (p.header.kind = .data)).toNat := by
  unfold hear discards ignores
  cases kind : p.header.kind with
  | data =>
    have balance := onData_balance distinct window p
    simpa using balance
  | ackReset =>
    dsimp only
    cases i.asking with
    | false => rfl
    | true => exact settled_clear i
  | _ => rfl

end Intake

end Balance

section Scenes

/-- What happens to a channel at once: the packet that it gets, its receive direction by then, and
what it logs. -/
structure Scene where
  packet? : Option Packet
  intake : Intake
  log : List Effect

namespace Scene

def brings (kind : Packet.Kind) (s : Scene) : Bool := s.packet?.any (·.header.kind = kind)

/-- The number of payloads that are thrown away because their stream is over. -/
def discarded (window : Nat) (s : Scene) : Nat := s.packet?.elim 0 (s.intake.discards window)

/-- Whether a data packet comes while the channel waits for the start of a stream. -/
def ignores (window : Nat) (s : Scene) : Bool := s.packet?.any (s.intake.ignores window)

end Scene

def Op.packet? : Op → Option Packet
  | .packet p => some p
  | _ => none

/-- The scene of an operation. -/
def sceneOf (ctx : Context) (c : Channel) (op : Op) : Scene where
  packet? := op.packet?
  intake := c.intake
  log := (c.apply ctx op).log

/-- The statistics of a channel tell what happened to it. -/
structure AddsUp (window : Nat) (life : List Scene) (s : ChannelStats) : Prop where
  packetsSent : s.packetsSent = (confirmed (life.flatMap Scene.log)).length
  bytesSent : s.bytesSent = (confirmed (life.flatMap Scene.log)).sum
  copies : s.packetsSent + s.repeated = (sentIds .data (life.flatMap Scene.log)).length
  packetsReceived : s.packetsReceived = (payloads (life.flatMap Scene.log)).length
  bytesReceived : s.bytesReceived = totalLength (payloads (life.flatMap Scene.log))
  acksReceived : s.acksReceived = life.countP (Scene.brings .ack)
  data : life.countP (Scene.brings .data) =
    s.packetsReceived + s.dropped + s.receiveQueueLength +
      (life.map (Scene.discarded window)).sum + life.countP (Scene.ignores window)

variable {life : List Scene} {s : Scene}

theorem addsUp_create (window : Nat) (key : Key) (generation : Nat) (config : Config) (now : Nat) :
    AddsUp window [] (create key generation config now).stats :=
  ⟨rfl, rfl, rfl, rfl, rfl, rfl, rfl⟩

theorem countP_append_singleton {α : Type} (f : α → Bool) (xs : List α) (x : α) :
    (xs ++ [x]).countP f = xs.countP f + (f x).toNat := by
  rw [List.countP_append, List.countP_singleton]
  cases f x <;> rfl

/-- Counting from zero. -/
theorem AddsUp.gains (adds : AddsUp window life c.stats) :
    Gains {} (life.flatMap Scene.log) c.counters where
  packetsSent := adds.packetsSent.trans (Nat.zero_add _).symm
  bytesSent := adds.bytesSent.trans (Nat.zero_add _).symm
  copies := adds.copies.trans (Nat.zero_add _).symm
  packetsReceived := adds.packetsReceived.trans (Nat.zero_add _).symm
  bytesReceived := adds.bytesReceived.trans (Nat.zero_add _).symm

theorem AddsUp.snoc (adds : AddsUp window life c.stats) (gains : Gains c.counters s.log c'.counters)
    (acks : c'.counters.acksReceived = c.counters.acksReceived + (s.brings .ack).toNat)
    (balance : c'.intake.settled + s.discarded window + (s.ignores window).toNat =
      c.intake.settled + (s.brings .data).toNat) :
    AddsUp window (life ++ [s]) c'.stats := by
  have all := adds.gains.trans gains
  have logs : life.flatMap Scene.log ++ s.log = (life ++ [s]).flatMap Scene.log := by simp
  rw [logs] at all
  refine ⟨all.packetsSent.trans (Nat.zero_add _), all.bytesSent.trans (Nat.zero_add _),
    all.copies.trans (Nat.zero_add _), all.packetsReceived.trans (Nat.zero_add _),
    all.bytesReceived.trans (Nat.zero_add _), ?_, ?_⟩
  · rw [countP_append_singleton, ← adds.acksReceived]
    exact acks
  · have data : _ = c.intake.settled + _ + _ := adds.data
    show _ = c'.intake.settled + _ + _
    rw [countP_append_singleton, countP_append_singleton, data, List.map_append, List.sum_append,
      List.map_singleton, List.sum_singleton]
    omega

/-- A step that the channel is spared adds nothing. -/
theorem AddsUp.spare (adds : AddsUp window life c.stats) (unheard : s.packet? = none)
    (refusals : ∀ e ∈ s.log, ∃ ticket error, e = .reply ticket (.error error)) :
    AddsUp window (life ++ [s]) c.stats := by
  have gains : Gains c.counters s.log c.counters := by
    refine .of_idle _ (Silent.sentIds ?_ _) ?_ ?_
    · intro e logged
      obtain ⟨_, _, rfl⟩ := refusals e logged
      rfl
    · refine confirmed_eq_nil fun ticket length logged => ?_
      obtain ⟨_, _, other⟩ := refusals _ logged
      cases other
    · refine payloads_eq_nil fun e logged => ?_
      obtain ⟨_, _, rfl⟩ := refusals e logged
      rfl
  refine adds.snoc gains ?_ ?_
  · simp [Scene.brings, unheard]
  · simp [Scene.brings, Scene.discarded, Scene.ignores, unheard]

/-- Every packet takes the receive direction through a step of its machine, which may leave it where
it is. -/
theorem intake_onPacket (ctx : Context) (c : Channel) (p : Packet) :
    (c.onPacket ctx p).value.intake = (c.intake.hear ctx.config.receiveWindow p).value := by
  cases heard : p.isInbound with
  | true => exact (takes_onPacket ctx c heard).value
  | false =>
    have same : (c.intake.hear ctx.config.receiveWindow p).value = c.intake := by
      unfold Packet.isInbound at heard
      unfold Intake.hear
      split at heard <;> simp_all
    have other : ∀ q, Op.packet p = .packet q → q.isInbound = false := by
      rintro q ⟨⟩
      exact heard
    rw [same]
    exact (takes_apply ctx c rfl other).value

theorem balance_sceneOf (ctx : Context) (distinct : c.receiver.early.Distinct)
    (alive : op.isDestroy = false) :
    (c.apply ctx op).value.intake.settled +
        (sceneOf ctx c op).discarded ctx.config.receiveWindow +
        ((sceneOf ctx c op).ignores ctx.config.receiveWindow).toNat =
      c.intake.settled + ((sceneOf ctx c op).brings .data).toNat := by
  cases op with
  | packet p =>
    have balance := Intake.hear_balance (i := c.intake) distinct ctx.config.receiveWindow p
    rw [← intake_onPacket] at balance
    exact balance
  | _ =>
    exact congrArg Intake.settled (takes_apply ctx c alive nofun).value

theorem AddsUp.apply (adds : AddsUp ctx.config.receiveWindow life c.stats)
    (labelled : c.Labelled) (distinct : c.receiver.early.Distinct) (alive : op.isDestroy = false)
    (lasts : op = .tick → (c.tick ctx).value.2 = none) :
    AddsUp ctx.config.receiveWindow (life ++ [sceneOf ctx c op]) (c.apply ctx op).value.stats := by
  refine adds.snoc (gains_apply labelled alive lasts) ?_ (balance_sceneOf ctx distinct alive)
  by_cases acked : ∃ p, op = .packet p ∧ p.header.kind = .ack
  · obtain ⟨p, rfl, kind⟩ := acked
    have counted := acksReceived_onPacket ctx c kind
    have brought : (sceneOf ctx c (.packet p)).brings .ack = true := by
      simp [sceneOf, Op.packet?, Scene.brings, kind]
    rw [brought]
    exact counted
  · have other : ∀ p, op = .packet p → p.header.kind ≠ .ack := fun p asked kind =>
      acked ⟨p, asked, kind⟩
    rw [acksReceived_apply ctx c alive other]
    cases op with
    | packet p => simp [sceneOf, Op.packet?, Scene.brings, other p rfl]
    | _ => rfl

end Scenes

end Channel

end ReliableDatagram
