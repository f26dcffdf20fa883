import ReliableDatagram.Proofs.Channel.Coherence
import ReliableDatagram.Proofs.Channel.Courses
import ReliableDatagram.Proofs.Channel.KeepAlive

/-!
# Retransmission

A channel sends packets again in its ticks only, each of them at a pace and as often as its
configuration allows. A tick that leaves the channel alive sends again what is due, once and in the
order of the send queue; a tick gives up if something that is due was sent too often already.
`retransmissions_paced` says so of whatever happens to a channel.
-/

namespace ReliableDatagram

namespace Channel

variable {kind : Packet.Kind} {config : Config} {ctx : Context} {op : Op} {c c' : Channel}
variable {log : List Effect} {writes : List ParkedWrite} {h : List (Nat × Effect)}

section Ticks

/-- Only a tick sends anything again, and only what the channel holds. -/
theorem Move.resends (move : Move ctx op c log writes c') {target : SocketAddr} {bytes : Bytes}
    (again : .resend target bytes ∈ log) :
    op = .tick ∧ ((∃ id, (id, bytes) ∈ c.sender.unacked.contents) ∨
      ∃ r, c.receiver.pendingReset = some r ∧ bytes = r.packet) := by
  cases move with
  | resendData =>
    obtain ⟨⟨id, _⟩, held, same⟩ := mem_resendData_log _ _ again
    cases same
    exact ⟨rfl, .inl ⟨id, held⟩⟩
  | resendReset =>
    obtain ⟨r, pending, same⟩ := mem_resendReset_log _ _ _ again
    cases same
    exact ⟨rfl, .inr ⟨r, pending, rfl⟩⟩
  | accept | acceptStart =>
    rcases mem_accept_log _ _ again with same | same | ⟨_, same⟩ <;> cases same
  | measure =>
    obtain ⟨_, same⟩ := mem_onAckPing_log again
    cases same
  | send =>
    simp only [log_sendWrite, List.mem_cons, reduceCtorEq, List.not_mem_nil, or_self] at again
  | requestReset _ _ idle =>
    simp only [requestReset_idle idle, List.mem_cons, reduceCtorEq, List.not_mem_nil,
      or_self] at again
  | connect | refuse | say | confirm | keep | startOver | restart | resetAnswered =>
    cases List.mem_singleton.mp again
  | _ => cases again

theorem Moves.resends_in_tick (moves : Moves ctx op c log writes c') {target : SocketAddr}
    {bytes : Bytes} (again : .resend target bytes ∈ log) : op = .tick := by
  induction moves with
  | none => cases again
  | snoc _ last ih =>
    rcases List.mem_append.mp again with early | late
    · exact ih early
    · exact (last.resends late).1

theorem apply_resends_in_tick {target : SocketAddr} {bytes : Bytes}
    (again : .resend target bytes ∈ (c.apply ctx op).log) : op = .tick := by
  rcases apply_cases ctx op c with ⟨_, moves⟩ | ⟨reason, rfl⟩
  · exact moves.resends_in_tick again
  · cases datagram?_of_mem_destroy again

/-- What is sent again is data or a request to start over. -/
theorem Move.resends_label (move : Move ctx op c log writes c') (labelled : c.Labelled)
    {target : SocketAddr} {bytes : Bytes} (again : .resend target bytes ∈ log) :
    ∃ kind id, Packet.label? bytes = some (kind, id) ∧ (kind = .data ∨ kind = .reset) := by
  rcases (move.resends again).2 with ⟨id, held⟩ | ⟨r, pending, rfl⟩
  · exact ⟨.data, id, labelled.unacked _ held, .inl rfl⟩
  · obtain ⟨id, label⟩ := labelled.request r pending
    exact ⟨.reset, id, label, .inr rfl⟩

theorem repeated_eq_nil (fresh : ∀ target bytes, .resend target bytes ∉ log) :
    repeated kind log = [] := by
  refine List.filterMap_eq_nil_iff.mpr fun e logged => ?_
  cases e with
  | resend target bytes => exact absurd logged (fresh target bytes)
  | _ => rfl

/-- What a tick does besides sending packets again is nothing that only ticks do. -/
theorem repeated_keepAlive (c : Channel) : repeated kind (c.keepAlive ctx).log = [] := by
  refine repeated_eq_nil fun target bytes again => ?_
  unfold keepAlive at again
  split at again
  · cases (moves_ping ctx c .ping (.inl rfl)).resends_in_tick again
  · cases again

theorem repeated_closeWindow (c : Channel) : repeated kind (c.closeWindow ctx).log = [] := by
  refine repeated_eq_nil fun target bytes again => ?_
  unfold closeWindow at again
  split at again
  · cases again
  · dsimp only at again
    split at again
    · cases (moves_flush _ .ping).resends_in_tick again
    · cases again

/-- The packets of a kind whose deadline has passed. -/
def due (kind : Packet.Kind) (ctx : Context) (c : Channel) : List Awaited :=
  (awaited kind c).filter fun a => decide (a.deadline ≤ ctx.now)

theorem due_data (ctx : Context) (c : Channel) :
    due .data ctx c = (c.sender.unacked.expired ctx.now).map Awaited.ofEntry := List.filter_map

/-- Something that is due may not be sent again. -/
def Exhausts (kind : Packet.Kind) (ctx : Context) (c : Channel) : Prop :=
  ∃ a ∈ due kind ctx c, ctx.config.maxResendAttempts ≤ a.attempts

theorem exhausts_iff (few : ∀ a ∈ awaited kind c, a.attempts ≤ ctx.config.maxResendAttempts) :
    Exhausts kind ctx c ↔ ∃ a ∈ due kind ctx c, a.attempts = ctx.config.maxResendAttempts := by
  refine exists_congr fun a => and_congr_right fun mem => ?_
  have few := few a (List.mem_filter.mp mem).1
  exact ⟨fun many => Nat.le_antisymm few many, fun many => Nat.le_of_eq many.symm⟩

theorem exhausts_data_iff :
    Exhausts .data ctx c ↔ c.sender.unacked.spent ctx.now ctx.config.maxResendAttempts ≠ [] := by
  have spent : c.sender.unacked.spent ctx.now ctx.config.maxResendAttempts ≠ [] ↔
      ∃ e ∈ c.sender.unacked.entries, e.isSpent ctx.now ctx.config.maxResendAttempts = true := by
    simp [SendQueue.spent, List.dropWhile_eq_nil_iff]
  rw [spent, Exhausts, due_data]
  constructor
  · rintro ⟨_, mem, many⟩
    obtain ⟨e, late, rfl⟩ := List.mem_map.mp mem
    obtain ⟨held, late⟩ := List.mem_filter.mp late
    exact ⟨e, held, Bool.and_eq_true_iff.mpr ⟨late, decide_eq_true many⟩⟩
  · rintro ⟨e, held, spent⟩
    obtain ⟨late, many⟩ := Bool.and_eq_true_iff.mp spent
    exact ⟨_, List.mem_map_of_mem (List.mem_filter.mpr ⟨held, late⟩), of_decide_eq_true many⟩

/-- A pass over the send queue gives up, or it sends again all that is due. -/
theorem resendData_cases (ctx : Context) (labelled : c.Labelled) (deadline : Nat) :
    (c.resendData ctx deadline).value.2 = true ∧ Exhausts .data ctx c ∨
      (c.resendData ctx deadline).value.2 = false ∧ ¬Exhausts .data ctx c ∧
        repeated .data (c.resendData ctx deadline).log = (due .data ctx c).map (·.packet) := by
  have outcome : (c.resendData ctx deadline).value.2 =
    !(c.sender.unacked.spent ctx.now ctx.config.maxResendAttempts).isEmpty := rfl
  rw [outcome, exhausts_data_iff, repeated_resendData labelled]
  by_cases live : c.sender.unacked.spent ctx.now ctx.config.maxResendAttempts = []
  · have all := c.sender.unacked.live_append_spent ctx.now ctx.config.maxResendAttempts
    rw [live, List.append_nil] at all
    refine .inr ⟨by rw [live]; rfl, fun spent => spent live, ?_⟩
    rw [all, due_data, List.map_map]
    rfl
  · exact .inl ⟨by simpa using live, live⟩

/-- So does a pass over the pending request. -/
theorem resendReset_cases (ctx : Context) (labelled : c.Labelled) (deadline : Nat) :
    (c.resendReset ctx deadline).value.2 = true ∧ Exhausts .reset ctx c ∨
      (c.resendReset ctx deadline).value.2 = false ∧ ¬Exhausts .reset ctx c ∧
        repeated .reset (c.resendReset ctx deadline).log = (due .reset ctx c).map (·.packet) := by
  unfold resendReset
  split
  · next none =>
    have none : due .reset ctx c = [] := by simp [due, awaited, none]
    exact .inr ⟨rfl, by simp [Exhausts, none], by simp [none, repeated]⟩
  · next r pending =>
    split
    · next early =>
      have none : due .reset ctx c = [] := by simp [due, awaited, pending, Awaited.ofRequest, early]
      exact .inr ⟨rfl, by simp [Exhausts, none], by simp [none, repeated]⟩
    · next late =>
      have one : due .reset ctx c = [.ofRequest r] := by
        simpa [due, awaited, pending, Awaited.ofRequest] using late
      have exhausts : Exhausts .reset ctx c ↔ ctx.config.maxResendAttempts ≤ r.attempts := by
        simp [Exhausts, one, Awaited.ofRequest]
      rw [exhausts, one]
      split
      · next spent => exact .inl ⟨rfl, spent⟩
      · next left =>
        obtain ⟨id, label⟩ := labelled.request r pending
        exact .inr ⟨rfl, left, by simp [repeated, Effect.repeated?, label, Awaited.ofRequest]⟩

/-- What comes of a tick at a channel that was heard from lately. -/
inductive Ticked (ctx : Context) (c : Channel) : Option DisconnectReason → List Effect → Prop
  | resendExhausted {log : List Effect} (spent : Exhausts .data ctx c) :
      Ticked ctx c (some .resendExhausted) log
  | resetExhausted {log : List Effect} (left : ¬Exhausts .data ctx c)
      (spent : Exhausts .reset ctx c) : Ticked ctx c (some .resetExhausted) log
  | kept {log : List Effect} (left : ¬Exhausts .data ctx c) (left' : ¬Exhausts .reset ctx c)
      (data : repeated .data log = (due .data ctx c).map (·.packet))
      (requests : repeated .reset log = (due .reset ctx c).map (·.packet)) :
      Ticked ctx c none log

theorem ticked (labelled : c.Labelled)
    (heard : ctx.now - c.lastReceived < ctx.config.disconnectTimeout) :
    Ticked ctx c (c.tick ctx).value.2 (c.tick ctx).log := by
  unfold tick
  rw [if_neg (Nat.not_le_of_lt heard)]
  generalize ctx.now + c.retransmitTimeout ctx.config = deadline
  have data := resendData_cases ctx labelled deadline
  have noRequest : repeated .reset (c.resendData ctx deadline).log = [] :=
    repeated_eq_nil_of_sentIds (sentIds_resendData_of_ne _ labelled nofun)
  have labelled' : (c.resendData ctx deadline).value.1.Labelled :=
    ⟨by simpa using labelled.unacked, by simpa using labelled.request⟩
  have requests := resendReset_cases ctx labelled' deadline
  have noData : repeated .data
      ((c.resendData ctx deadline).value.1.resendReset ctx deadline).log = [] :=
    repeated_eq_nil_of_sentIds (sentIds_resendReset_of_ne _ labelled' nofun)
  have same : due .reset ctx (c.resendData ctx deadline).value.1 = due .reset ctx c := by
    simp only [due, awaited, resendData_receiver]
  rw [Exhausts, same] at requests
  simp only [Logged.value_bind, Logged.log_bind]
  rcases data with ⟨exhausted, spent⟩ | ⟨going, left, again⟩
  · rw [exhausted]
    exact .resendExhausted spent
  · rw [going]
    simp only [Bool.false_eq_true, if_false, Logged.value_bind, Logged.log_bind]
    rcases requests with ⟨exhausted, spent⟩ | ⟨going', left', again'⟩
    · rw [exhausted]
      exact .resetExhausted left spent
    · rw [going']
      refine .kept left left' ?_ ?_
      · simp [again, noData, repeated_keepAlive, repeated_closeWindow]
      · simp [again', noRequest, repeated_keepAlive, repeated_closeWindow]

variable {outcome : Option DisconnectReason}

theorem Ticked.resendExhausted_iff (ticked : Ticked ctx c outcome log) :
    outcome = some .resendExhausted ↔ Exhausts .data ctx c := by
  cases ticked with
  | resendExhausted spent => exact ⟨fun _ => spent, fun _ => rfl⟩
  | resetExhausted left | kept left => exact ⟨nofun, fun spent => absurd spent left⟩

theorem Ticked.resetExhausted_iff (ticked : Ticked ctx c outcome log) :
    outcome = some .resetExhausted ↔ ¬Exhausts .data ctx c ∧ Exhausts .reset ctx c := by
  cases ticked with
  | resendExhausted spent => exact ⟨nofun, fun both => absurd spent both.1⟩
  | resetExhausted left spent => exact ⟨fun _ => ⟨left, spent⟩, fun _ => rfl⟩
  | kept _ left' => exact ⟨nofun, fun both => absurd both.2 left'⟩

/-- A tick that leaves the channel alive sends again what is due, once and in order. It gives up just
if something that is due was sent again as often as it may be, data first. -/
structure TicksInTime (ctx : Context) (c : Channel) : Prop where
  data : (c.tick ctx).value.2 = none →
    repeated .data (c.tick ctx).log = (due .data ctx c).map (·.packet)
  requests : (c.tick ctx).value.2 = none →
    repeated .reset (c.tick ctx).log = (due .reset ctx c).map (·.packet)
  resendExhausted : ctx.now - c.lastReceived < ctx.config.disconnectTimeout →
    ((c.tick ctx).value.2 = some .resendExhausted ↔
      ∃ a ∈ due .data ctx c, a.attempts = ctx.config.maxResendAttempts)
  resetExhausted : ctx.now - c.lastReceived < ctx.config.disconnectTimeout →
    ((c.tick ctx).value.2 = some .resetExhausted ↔
      (¬∃ a ∈ due .data ctx c, a.attempts = ctx.config.maxResendAttempts) ∧
        ∃ a ∈ due .reset ctx c, a.attempts = ctx.config.maxResendAttempts)

theorem ticksInTime (labelled : c.Labelled)
    (data : ∀ a ∈ awaited .data c, a.attempts ≤ ctx.config.maxResendAttempts)
    (requests : ∀ a ∈ awaited .reset c, a.attempts ≤ ctx.config.maxResendAttempts) :
    TicksInTime ctx c := by
  have alive (kept : (c.tick ctx).value.2 = none) :
      repeated .data (c.tick ctx).log = (due .data ctx c).map (·.packet) ∧
        repeated .reset (c.tick ctx).log = (due .reset ctx c).map (·.packet) := by
    have heard : ctx.now - c.lastReceived < ctx.config.disconnectTimeout := by
      refine Nat.lt_of_not_le fun silent => ?_
      rw [tick_eq_timeout_iff.mpr silent] at kept
      cases kept
    have ticked := ticked labelled heard
    rw [kept] at ticked
    cases ticked with
    | kept _ _ data requests => exact ⟨data, requests⟩
  refine ⟨fun kept => (alive kept).1, fun kept => (alive kept).2, fun heard => ?_, fun heard => ?_⟩
  · rw [(ticked labelled heard).resendExhausted_iff, exhausts_iff data]
  · rw [(ticked labelled heard).resetExhausted_iff, exhausts_iff data, exhausts_iff requests]

end Ticks

section Requests

/-- Whether a pending request to start over ends by this operation. -/
def Op.Answers : Op → Prop
  | .packet p =>
    p.header.kind = .data ∧ p.header.id = .streamStart ∨ p.header.kind = .ackReset
  | .destroy _ => True
  | _ => False

theorem Move.request_stays (move : Move ctx op c log writes c') (other : ¬op.Answers)
    {r : PendingReset} (pending : c.receiver.pendingReset = some r) :
    ∃ r', c'.receiver.pendingReset = some r' ∧ r'.packet = r.packet := by
  cases move with
  | acceptStart kind place => exact absurd (.inl ⟨kind, (Receiver.place_eq_start place).1⟩) other
  | restart kind place => exact absurd (.inl ⟨kind, (Receiver.place_eq_restart place).1⟩) other
  | resetAnswered kind => exact absurd (.inr kind) other
  | accept =>
    rw [accept_receiver]
    exact ⟨r, pending, rfl⟩
  | requestReset _ _ idle =>
    rw [idle] at pending
    cases pending
  | resendData =>
    rw [resendData_receiver]
    exact ⟨r, pending, rfl⟩
  | resendReset =>
    rcases resendReset_value ctx c (ctx.now + c.retransmitTimeout ctx.config) with
      same | ⟨r', attempts, pending', same⟩
    · rw [same]
      exact ⟨r, pending, rfl⟩
    · rw [pending] at pending'
      cases pending'
      rw [same]
      exact ⟨_, rfl, rfl⟩
  | tune =>
    rw [tune_receiver]
    exact ⟨r, pending, rfl⟩
  | _ => exact ⟨r, pending, rfl⟩

theorem Moves.request_stays (moves : Moves ctx op c log writes c') (other : ¬op.Answers)
    {r : PendingReset} (pending : c.receiver.pendingReset = some r) :
    ∃ r', c'.receiver.pendingReset = some r' ∧ r'.packet = r.packet := by
  induction moves with
  | none => exact ⟨r, pending, rfl⟩
  | snoc _ last ih =>
    obtain ⟨r', pending', same⟩ := ih
    obtain ⟨r'', pending'', same'⟩ := last.request_stays other pending'
    exact ⟨r'', pending'', same'.trans same⟩

/-- A stream start, an answer to the request and the end of the channel end a request, and nothing
else does. -/
theorem request_ends (ctx : Context)
    (coherent : Coherent ctx.config.receiveWindow c.receiver) {r : PendingReset}
    (pending : c.receiver.pendingReset = some r) (op : Op) :
    (op.Answers → (c.apply ctx op).value.receiver.pendingReset = none) ∧
      (¬op.Answers → ∃ r', (c.apply ctx op).value.receiver.pendingReset = some r' ∧
        r'.packet = r.packet) := by
  have asks : c.receiver.pendingReset.isSome := by rw [pending]; rfl
  constructor
  · intro answers
    cases op with
    | packet p =>
      rcases answers with ⟨kind, start⟩ | kind
      · have waiting := coherent.waiting (coherent.asks asks)
        exact congrArg Receiver.pendingReset (onPacket_start kind (waiting.place_start start ctx)).1
      · refine (congrArg Receiver.pendingReset (onPacket_ackReset ctx c kind).2.1).trans ?_
        rw [if_pos asks]
    | destroy => rfl
    | _ => cases answers
  · intro other
    rcases apply_cases ctx op c with ⟨_, moves⟩ | ⟨reason, rfl⟩
    · exact moves.request_stays other pending
    · exact absurd trivial other

/-- A request that goes out is reported. -/
theorem Move.asks (move : Move ctx op c log writes c') :
    (posted .reset log).length = (log.filter Effect.asks).length := by
  have quiet (new : posted .reset log = []) (asks : ∀ e ∈ log, e.asks = false) :
      (posted .reset log).length = (log.filter Effect.asks).length := by
    have none : log.filter Effect.asks = [] := List.filter_eq_nil_iff.mpr (by simpa using asks)
    rw [new, none]
    rfl
  cases move with
  | say speech =>
    exact quiet ((posted_send _ _ _).trans (if_neg speech.kind.2.2))
      (List.forall_mem_singleton.mpr rfl)
  | send => rw [posted_sendWrite]; rfl
  | measure =>
    refine quiet ((silent_onAckPing _ _).posted _) fun e logged => ?_
    obtain ⟨rtt, rfl⟩ := mem_onAckPing_log logged
    rfl
  | accept | acceptStart =>
    refine quiet (posted_accept _ _) fun e logged => ?_
    rcases mem_accept_log _ _ logged with rfl | rfl | ⟨_, rfl⟩ <;> rfl
  | confirm | keep => exact quiet (posted_send _ _ _) (List.forall_mem_singleton.mpr rfl)
  | requestReset _ _ idle =>
    rw [posted_requestReset _ idle, requestReset_idle idle]
    rfl
  | resendData =>
    refine quiet (posted_resendData _ _) fun e logged => ?_
    obtain ⟨x, _, rfl⟩ := mem_resendData_log _ _ logged
    rfl
  | resendReset =>
    refine quiet (posted_resendReset _ _) fun e logged => ?_
    obtain ⟨x, _, rfl⟩ := mem_resendReset_log _ _ _ logged
    rfl
  | _ => rfl

/-- The times at which it is reported that the peer was asked to start over. -/
def askTimes (h : List (Nat × Effect)) : List Nat :=
  (h.filter fun x => x.2.asks).map Prod.fst

theorem askTimes_stamped {now : Nat} (count : (posted .reset log).length =
    (log.filter Effect.asks).length) (same : (firsts .reset h).map Prod.fst = askTimes h) :
    (firsts .reset (h ++ stamped now log)).map Prod.fst = askTimes (h ++ stamped now log) := by
  have first : (firsts .reset (stamped now log)).map Prod.fst =
      List.replicate (posted .reset log).length now := by
    rw [firsts_stamped, List.map_map]
    exact List.map_const'
  have asked : askTimes (stamped now log) =
      List.replicate (log.filter Effect.asks).length now := by
    rw [askTimes, stamped, List.filter_map, List.map_map]
    exact List.map_const'
  rw [firsts_append, List.map_append, same, first, count, ← asked, askTimes, askTimes, askTimes,
    List.filter_append, List.map_append]

/-- Each report of a request stands for one that goes out for the first time. -/
theorem firsts_reset_eq_askTimes (config : Config) (clock : Clock) (ops : List (Nat × Op))
    (labelled : c.Labelled) :
    (firsts .reset (history config clock ops c)).map Prod.fst =
      askTimes (history config clock ops c) := by
  refine history_induction
    (P := fun h _ => (firsts .reset h).map Prod.fst = askTimes h) (h := []) ?_ ?_ ops labelled rfl
  · intro now op d d' log writes h move _ same
    exact askTimes_stamped move.asks same
  · intro now d h reason same
    have none : (d.destroy reason).log.filter Effect.asks = [] := by
      refine List.filter_eq_nil_iff.mpr fun e logged => ?_
      rcases mem_destroy_log logged with ⟨w, _, rfl⟩ | rfl <;> exact Bool.false_ne_true
    exact askTimes_stamped (by rw [(silent_destroy d reason).posted, none]; rfl) same

end Requests

/-- What is sent again in a run is data or a request to start over. -/
theorem label_of_mem_history (clock : Clock) (ops : List (Nat × Op)) (labelled : c.Labelled)
    {t : Nat} {target : SocketAddr} {bytes : Bytes}
    (again : (t, .resend target bytes) ∈ history config clock ops c) :
    ∃ kind id, Packet.label? bytes = some (kind, id) ∧ (kind = .data ∨ kind = .reset) := by
  refine history_induction (P := fun h _ => (t, .resend target bytes) ∈ h →
    ∃ kind id, Packet.label? bytes = some (kind, id) ∧ (kind = .data ∨ kind = .reset)) (h := [])
    ?_ ?_ ops labelled nofun again
  · intro now op d d' log writes h move labelled before again
    rcases List.mem_append.mp again with old | new
    · exact before old
    · obtain ⟨e, logged, same⟩ := List.mem_map.mp new
      cases same
      exact move.resends_label labelled logged
  · intro now d h reason before again
    rcases List.mem_append.mp again with old | new
    · exact before old
    · obtain ⟨e, logged, same⟩ := List.mem_map.mp new
      cases same
      cases datagram?_of_mem_destroy logged

/-- What is true of a channel and of all that it has sent. -/
structure WellPaced (config : Config) (clock : Clock) (h : List (Nat × Effect)) (c : Channel) :
    Prop where
  data : Disciplined config .data h (awaited .data c)
  /-- Packets whose bytes are their own are known by them in the history. -/
  count : ∀ a ∈ awaited .data c, ((firsts .data h).map Prod.snd).count a.packet = 1 →
    ((repeats .data h).map Prod.snd).count a.packet = a.attempts
  requests : Disciplined config .reset h (awaited .reset c)
  /-- There is one request for each report of one. -/
  reported : (firsts .reset h).map Prod.fst = askTimes h
  ends : ∀ r, c.receiver.pendingReset = some r → ∀ now op,
    (op.Answers → (c.apply ⟨now, config, clock⟩ op).value.receiver.pendingReset = none) ∧
      (¬op.Answers → ∃ r', (c.apply ⟨now, config, clock⟩ op).value.receiver.pendingReset = some r' ∧
        r'.packet = r.packet)
  /-- Nothing else is ever sent again. -/
  kinds : ∀ t target bytes, (t, .resend target bytes) ∈ h →
    ∃ kind id, Packet.label? bytes = some (kind, id) ∧ (kind = .data ∨ kind = .reset)
  ticksOnly : ∀ now op target bytes,
    .resend target bytes ∈ (c.apply ⟨now, config, clock⟩ op).log → op = .tick
  ticks : ∀ now, TicksInTime ⟨now, config, clock⟩ c

/-- Whatever has happened to a channel, at whatever times, it sends again at the right pace. -/
theorem retransmissions_paced (config : Config) (clock : Clock) (key : Key)
    (generation start : Nat) (ops : List (Nat × Op)) :
    WellPaced config clock (history config clock ops (create key generation config start))
      (run config clock ops (create key generation config start)).value := by
  have labelled := labelled_create key generation config start
  have coherent : Coherent config.receiveWindow
      (run config clock ops (create key generation config start)).value.receiver :=
    (coherent_fresh _).run config clock ops
  have data := disciplined_data config clock key generation start ops
  have requests := disciplined_reset config clock key generation start ops
  constructor
  · exact data
  · exact fun a held once => data.count_repeats held once
  · exact requests
  · exact firsts_reset_eq_askTimes config clock ops labelled
  · exact fun r pending now op => request_ends ⟨now, config, clock⟩ coherent pending op
  · exact fun t target bytes again => label_of_mem_history clock ops labelled again
  · exact fun now op target bytes again => apply_resends_in_tick again
  · intro now
    exact ticksInTime (labelled.run config clock ops) (fun a held => data.attempts_le held)
      fun a held => requests.attempts_le held

/-- A packet goes out again with the first tick from its deadline on, and then has a new one. -/
example :
    let h := history {} ⟨0, 0⟩
      [(0, .write ⟨0, [1]⟩), (29 * millisecond, .tick), (31 * millisecond, .tick),
        (60 * millisecond, .tick), (61 * millisecond, .tick)] (create ⟨⟨.v4 1, 1⟩, 1⟩ 1 {} 0)
    (firsts .data h).map Prod.fst = [0] ∧
      (repeats .data h).map Prod.fst = [31 * millisecond, 61 * millisecond] := by
  decide +kernel

end Channel

end ReliableDatagram
