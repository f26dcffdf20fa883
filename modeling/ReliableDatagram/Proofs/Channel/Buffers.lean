import ReliableDatagram.Proofs.Channel.Directions
import ReliableDatagram.Proofs.PacketId

/-!
# Room in the buffers

Whatever arrives, a receiver keeps early packets of its window only: each of their ids lies ahead of
the expected one, by the receive window at most. And whatever is written, a send queue grows no
longer than its limit allowed, which tuning moves between its least and its most.
-/

namespace ReliableDatagram.Channel

open PacketId

variable {ctx : Context} {op : Op} {c c' : Channel} {log : List Effect} {ws : List ParkedWrite}
variable {window : Nat} {e id : PacketId} {q : ReceiveQueue} {r : Receiver}

section Window

/-- All ids in the queue lie from `low` to `window` steps ahead of the id `e`. -/
def Spans (low window : Nat) (e : PacketId) (q : ReceiveQueue) : Prop :=
  ∀ id payload, q.get? id = some payload →
    id ≠ streamStart ∧ (low : Int) ≤ e.distanceTo id ∧ e.distanceTo id ≤ window

theorem spans_empty (low window : Nat) (e : PacketId) : Spans low window e {} := by
  intro id payload held
  simp [ReceiveQueue.get?] at held

theorem Spans.erase {low : Nat} (spans : Spans low window e q) (j : PacketId) :
    Spans low window e (q.erase j) := by
  intro id payload held
  rw [ReceiveQueue.get?_erase] at held
  split at held
  · cases held
  · exact spans id payload held

/-- The gap before the queue is one step shorter from the next id on. -/
theorem Spans.next (spans : Spans 1 window e q) (later : e ≠ streamStart) :
    Spans 0 window e.next q := by
  intro id payload held
  obtain ⟨ne, ahead, near⟩ := spans id payload held
  have step := distanceTo_next later (i := id) (by omega)
  exact ⟨ne, by omega, by omega⟩

/-- The run that starts at the expected id is all that can be there without a gap. -/
theorem Spans.gap (spans : Spans 0 window e q) (later : e ≠ streamStart)
    (missing : q.get? e = none) : Spans 1 window e q := by
  intro id payload held
  obtain ⟨ne, ahead, near⟩ := spans id payload held
  refine ⟨ne, ?_, near⟩
  have other : e.distanceTo id ≠ 0 := by
    intro here
    rw [eq_of_distanceTo_eq_zero later ne here, missing] at held
    cases held
  omega

theorem Spans.drain (spans : Spans 0 window e q) (later : e ≠ streamStart) :
    Spans 1 window (q.drain e).2.1 (q.drain e).2.2 := by
  induction q, e using ReceiveQueue.drain.induct with
  | case1 q e missing =>
    rw [ReceiveQueue.drain_missing missing]
    exact spans.gap later missing
  | case2 q e payload kept payloads after rest drained ih =>
    have gone : (q.erase e).get? e = none := by simp [ReceiveQueue.get?_erase]
    rw [ReceiveQueue.drain_found kept]
    exact ih ((spans.erase e).gap later gone |>.next later) (next_ne_streamStart e)

/-- The receiver keeps packets of its window only, and none before it has a stream. -/
structure Windowed (window : Nat) (r : Receiver) : Prop where
  waits : r.expected = streamStart → r.early = {}
  early : Spans 1 window r.expected r.early

theorem windowed_fresh (window : Nat) : Windowed window {} :=
  ⟨fun _ => rfl, spans_empty 1 window _⟩

theorem windowed_accept (spans : Spans 0 window id.next r.early) (payload : Bytes) :
    Windowed window (r.accept id payload).2 :=
  ⟨fun start => absurd start (expected_accept_ne r id payload),
    spans.drain (next_ne_streamStart id)⟩

theorem Windowed.keep (windowed : Windowed window r) (payload : Bytes) (started : r.expected ≠ streamStart)
    (later : id ≠ streamStart) (ahead : 0 < r.expected.distanceTo id)
    (near : r.expected.distanceTo id ≤ window) : Windowed window (r.keep id payload) := by
  refine ⟨fun start => absurd start started, fun j held kept => ?_⟩
  have kept : (r.early.insert id payload).get? j = some held := kept
  rw [ReceiveQueue.get?_insert] at kept
  split at kept
  · next new =>
    rw [new.1]
    exact ⟨later, ahead, near⟩
  · exact windowed.early j held kept

/-- What a move does to the receiver, whatever it sends and reports. -/
inductive Receives (ctx : Context) (c : Channel) : Receiver → Prop
  | rest : Receives ctx c c.receiver
  | accept {p : Packet} (place : c.placeOf ctx p = .next) :
      Receives ctx c (c.receiver.accept p.header.id p.payload).2
  | acceptStart {p : Packet} (place : c.placeOf ctx p = .start) :
      Receives ctx c ((c.receiver.start p.header.timestamp).accept p.header.id p.payload).2
  | keep {p : Packet} (place : c.placeOf ctx p = .early) :
      Receives ctx c (c.receiver.keep p.header.id p.payload)
  | ask {pending : PendingReset}
      (due : c.receiver.expected = streamStart ∨ c.receiver.pendingReset.isSome) :
      Receives ctx c { c.receiver with pendingReset := some pending }
  | clear : Receives ctx c {}

theorem Move.receives (move : Move ctx op c log ws c') : Receives ctx c c'.receiver := by
  cases move with
  | accept _ place =>
    rw [accept_receiver]
    exact .accept place
  | acceptStart _ place =>
    rw [acceptStart_receiver]
    exact .acceptStart place
  | restart | resetAnswered => exact .clear
  | keep _ place => exact .keep place
  | requestReset _ place idle =>
    rw [requestReset_idle idle]
    exact .ask (.inl (Receiver.place_eq_unplaced place).2)
  | resendReset =>
    rcases resendReset_value ctx c (ctx.now + c.retransmitTimeout ctx.config) with
      same | ⟨r, attempts, pending, same⟩
    · rw [same]
      exact .rest
    · rw [same]
      exact .ask (.inr (by rw [pending]; rfl))
  | resendData =>
    rw [resendData_receiver]
    exact .rest
  | tune =>
    rw [tune_receiver]
    exact .rest
  | _ => exact .rest

theorem Receives.windowed (receives : Receives ctx c r)
    (windowed : Windowed ctx.config.receiveWindow c.receiver) :
    Windowed ctx.config.receiveWindow r := by
  cases receives with
  | rest => exact windowed
  | @accept p place =>
    obtain ⟨later, started, here⟩ := Receiver.place_eq_next place
    have id := eq_of_distanceTo_eq_zero started later here
    refine windowed_accept ?_ p.payload
    rw [id]
    exact windowed.early.next started
  | @acceptStart p place =>
    refine windowed_accept ?_ p.payload
    have none : (c.receiver.start p.header.timestamp).early = {} :=
      windowed.waits (Receiver.place_eq_start place).2
    rw [none]
    exact spans_empty _ _ _
  | keep place =>
    obtain ⟨later, started, ahead, near⟩ := Receiver.place_eq_early place
    exact windowed.keep _ started later ahead near
  | ask => exact ⟨windowed.waits, windowed.early⟩
  | clear => exact windowed_fresh _

theorem Moves.windowed (moves : Moves ctx op c log ws c')
    (windowed : Windowed ctx.config.receiveWindow c.receiver) :
    Windowed ctx.config.receiveWindow c'.receiver := by
  induction moves with
  | none => exact windowed
  | snoc _ last ih => exact last.receives.windowed ih

end Window

section Room

variable {config : Config} {s s' : Sender}

/-- The send queue holds no more than tuning may ever allow. -/
structure Roomy (config : Config) (s : Sender) : Prop where
  least : config.defaultQueueSize ≤ s.unacked.limit
  most : s.unacked.limit ≤ config.maxQueueSize
  fits : s.unacked.contents.length ≤ config.maxQueueSize

theorem roomy_create (key : Key) (generation now : Nat)
    (sizes : config.defaultQueueSize ≤ config.maxQueueSize) :
    Roomy config (create key generation config now).sender :=
  ⟨Nat.le_refl _, sizes, Nat.zero_le _⟩

theorem Roomy.of_le (roomy : Roomy config s) (limit : s'.unacked.limit = s.unacked.limit)
    (fewer : s'.unacked.contents.length ≤ s.unacked.contents.length) : Roomy config s' :=
  ⟨by simpa [limit] using roomy.least, by simpa [limit] using roomy.most,
    Nat.le_trans fewer roomy.fits⟩

theorem length_lt_of_canSend (room : s.canSend = true) :
    s.unacked.contents.length < s.unacked.limit := by
  have free : s.unacked.isFull = false := by simpa using (Bool.and_eq_true_iff.mp room).1
  have few : ¬s.unacked.limit ≤ s.unacked.length := of_decide_eq_false free
  simpa [SendQueue.contents, SendQueue.length] using few

theorem Roomy.tune (roomy : Roomy config c.sender) (rates : Rates) :
    Roomy config (c.tune config rates).sender := by
  obtain ⟨least, most, fits⟩ := roomy
  unfold Channel.tune
  dsimp only
  split
  · exact ⟨least, most, fits⟩
  · split
    · exact ⟨Nat.le_min.mpr ⟨by omega, by omega⟩, Nat.min_le_right _ _, fits⟩
    · split
      · exact ⟨Nat.le_max_right _ _, Nat.max_le.mpr ⟨by omega, by omega⟩, fits⟩
      · exact ⟨least, most, fits⟩

theorem Move.roomy (move : Move ctx op c log ws c') (roomy : Roomy ctx.config c.sender) :
    Roomy ctx.config c'.sender := by
  cases move with
  | send _ room =>
    have free := length_lt_of_canSend room
    have most := roomy.most
    have grown (entry : SendQueue.Entry) : (c.sender.unacked.push entry).contents.length =
        c.sender.unacked.contents.length + 1 := by simp
    exact ⟨roomy.least, most, Nat.le_trans (Nat.le_of_eq (grown _)) (by omega)⟩
  | settle _ found =>
    refine roomy.of_le (SendQueue.limit_remove? found) ?_
    rw [SendQueue.contents_remove? found]
    exact List.length_eraseP_le
  | startOver | restart => exact roomy.of_le rfl (Nat.zero_le _)
  | resendData => exact roomy.of_le (resendData_limit c _) (by simp)
  | tune => exact roomy.tune _
  | park => exact roomy.of_le rfl (Nat.le_refl _)
  | accept | acceptStart | resendReset => simpa using roomy
  | requestReset _ _ idle => simpa [requestReset_idle idle] using roomy
  | _ => exact roomy

theorem Moves.roomy (moves : Moves ctx op c log ws c') (roomy : Roomy ctx.config c.sender) :
    Roomy ctx.config c'.sender := by
  induction moves with
  | none => exact roomy
  | snoc _ last ih => exact last.roomy ih

end Room

end ReliableDatagram.Channel
