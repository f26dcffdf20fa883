import ReliableDatagram.Proofs.Channel.Backlog
import ReliableDatagram.Proofs.Channel.Patience
import ReliableDatagram.Proofs.Channel.Posting
import ReliableDatagram.Proofs.Channel.Retransmission
import ReliableDatagram.Proofs.Channel.Tally

/-!
# What raises the limit of the send queue

The limit of a send queue is raised by a tick that closes a rate window. The window is told here by
the log alone, as what was sent since it was opened, and `raises_limit_iff` says at which ticks the
limit goes up. Both rates are rounded down. So more than thirty packets were sent in every second of
the window, but some may have been sent again: less than one in a second.
-/

namespace ReliableDatagram.Channel

variable {config : Config} {clock : Clock} {ctx : Context} {op : Op} {c c' d : Channel}
  {log log' : List Effect} {ws : List ParkedWrite} {p : Packet}

/-- The data packets that were sent since a time, for the first time and again. -/
structure RateWindow where
  start : Nat
  first : Nat := 0
  again : Nat := 0

namespace RateWindow

def elapsed (w : RateWindow) (now : Nat) : Nat := now - w.start

def record (w : RateWindow) (log : List Effect) : RateWindow where
  start := w.start
  first := w.first + (posted .data log).length
  again := w.again + (repeated .data log).length

/-- A tick closes a window that is complete. It does so after it has sent packets again and before it
sends parked writes. -/
def after (w : RateWindow) (now : Nat) (op : Op) (log : List Effect) : RateWindow :=
  match op with
  | .tick =>
    if second ≤ w.elapsed now then { start := now, first := (posted .data log).length }
    else w.record log
  | _ => w.record log

end RateWindow

/-- The window that is open after a run. -/
def windowAfter (config : Config) (clock : Clock) :
    List (Nat × Op) → Channel → RateWindow → RateWindow
  | [], _, w => w
  | (now, op) :: ops, c, w =>
    let x := c.apply ⟨now, config, clock⟩ op
    windowAfter config clock ops x.value (w.after now op x.log)

/-- No tick of a run gives up, so that the channel is not destroyed in the course of it. -/
def LivesOn (config : Config) (clock : Clock) : List (Nat × Op) → Channel → Prop
  | [], _ => True
  | (now, op) :: ops, c =>
    (op = .tick → (c.tick ⟨now, config, clock⟩).value.2 = none) ∧
      LivesOn config clock ops (c.apply ⟨now, config, clock⟩ op).value

theorem livesOn_of_brief {ops : List (Nat × Op)} (brief : ∀ step ∈ ops, step.2 ≠ .tick) :
    LivesOn config clock ops c := by
  induction ops generalizing c with
  | nil => trivial
  | cons step ops ih =>
    obtain ⟨first, later⟩ := List.forall_mem_cons.mp brief
    exact ⟨fun tick => absurd tick first, ih later⟩

section Meter

/-- A meter counts the data packets in a log. -/
structure Counts (m : RateMeter) (log : List Effect) (m' : RateMeter) : Prop where
  windowStart : m'.windowStart = m.windowStart
  sent : m'.sent = m.sent + (posted .data log).length
  repeated : m'.repeated = m.repeated + (repeated .data log).length

variable {m m' m'' : RateMeter}

theorem Counts.trans (first : Counts m log m') (second : Counts m' log' m'') :
    Counts m (log ++ log') m'' := by
  constructor
  · rw [second.windowStart, first.windowStart]
  · rw [second.sent, first.sent, posted_append, List.length_append, Nat.add_assoc]
  · rw [second.repeated, first.repeated, repeated_append, List.length_append, Nat.add_assoc]

/-- What carries no data is not counted. -/
theorem counts_of_mute (m : RateMeter) (mute : sentIds .data log = []) : Counts m log m := by
  constructor <;> simp [posted_eq_nil_of_sentIds mute, repeated_eq_nil_of_sentIds mute]

theorem counts_send (m : RateMeter) (target : SocketAddr) (kind : p.header.kind ≠ .data) :
    Counts m [.send target p.encode] m :=
  counts_of_mute m (by rw [sentIds_send, if_neg kind])

theorem counts_sendWrite (c : Channel) (w : ParkedWrite) :
    Counts c.meter (c.sendWrite ctx w).log (c.sendWrite ctx w).value.meter := by
  refine ⟨rfl, ?_, rfl⟩
  rw [posted_sendWrite, if_pos rfl]
  rfl

theorem meter_checkConnected (c : Channel) : c.checkConnected.value.meter = c.meter := by
  unfold checkConnected
  split <;> rfl

theorem counts_accept (c : Channel) (p : Packet) :
    Counts c.meter (c.accept ctx p).log (c.accept ctx p).value.meter := by
  have same : (c.accept ctx p).value.meter = c.meter :=
    meter_checkConnected (c.transmit ctx p.ack).value
  rw [same]
  exact counts_of_mute _ (by rw [sentIds_accept, if_neg nofun])

/-- Only a tick sends data packets again or closes a window. -/
theorem Move.counts (move : Move ctx op c log ws c') (brief : op ≠ .tick) :
    Counts c.meter log c'.meter := by
  cases move with
  | resendData | resendReset | roll | tune => exact absurd rfl brief
  | accept => exact counts_accept c _
  | @acceptStart p => exact counts_accept { c with receiver := c.receiver.start p.header.timestamp } p
  | send => exact counts_sendWrite (c.withParked _) _
  | say speech =>
    refine counts_send _ _ ?_
    cases speech <;> exact Packet.Kind.noConfusion
  | @confirm p => exact counts_send c.meter c.key.addr (nofun : p.ack.header.kind ≠ .data)
  | @keep p => exact counts_send c.meter c.key.addr (nofun : p.ack.header.kind ≠ .data)
  | measure => exact counts_of_mute _ ((silent_onAckPing c _).sentIds _)
  | requestReset _ _ idle =>
    have mute : sentIds .data (c.requestReset ctx).log = [] :=
      (sentIds_requestReset _ idle).trans (if_neg nofun)
    rw [requestReset_idle idle] at mute ⊢
    exact counts_of_mute _ mute
  | _ => exact counts_of_mute _ rfl

theorem Moves.counts (moves : Moves ctx op c log ws c') (brief : op ≠ .tick) :
    Counts c.meter log c'.meter := by
  induction moves with
  | none => exact counts_of_mute _ rfl
  | snoc _ last ih => exact ih.trans (last.counts brief)

theorem counts_flush (ctx : Context) (c : Channel) :
    Counts c.meter (c.flush ctx).log (c.flush ctx).value.meter :=
  (moves_flush c .ping).counts nofun

end Meter

section Tick

/-- What a tick has done by the time it looks at the window: it sent packets again and kept the
connection alive. -/
structure Approach (c : Channel) (log : List Effect) (d : Channel) : Prop where
  counts : Counts c.meter log d.meter
  unposted : posted .data log = []
  limit : d.sender.unacked.limit = c.sender.unacked.limit
  contents : d.sender.unacked.contents = c.sender.unacked.contents

theorem Approach.trans {c c' c'' : Channel} (first : Approach c log c')
    (second : Approach c' log' c'') : Approach c (log ++ log') c'' :=
  ⟨first.counts.trans second.counts, by rw [posted_append, first.unposted, second.unposted]; rfl,
    second.limit.trans first.limit, second.contents.trans first.contents⟩

/-- What carries no data and leaves the meter and the send queue alone. -/
theorem approach_of_mute (mute : sentIds .data log = []) (meter : d.meter = c.meter)
    (sender : d.sender = c.sender) : Approach c log d :=
  ⟨meter ▸ counts_of_mute _ mute, posted_eq_nil_of_sentIds mute, by rw [sender], by rw [sender]⟩

theorem approach_resendData (labelled : c.Labelled) {deadline : Nat}
    (complete : (c.resendData ctx deadline).value.2 = false) :
    Approach c (c.resendData ctx deadline).log (c.resendData ctx deadline).value.1 := by
  refine ⟨?_, posted_resendData c deadline, resendData_limit c deadline,
    resendData_contents c deadline⟩
  have counted : (c.resendData ctx deadline).value.1.meter =
      c.meter.record 0 (repeated .data (c.resendData ctx deadline).log).length := by
    rw [repeated_resendData labelled, List.length_map]
    unfold resendData at complete ⊢
    dsimp only at complete ⊢
    rw [complete, Bool.or_false]
    split
    · next none =>
      rw [List.isEmpty_iff.mp none]
      rfl
    · rfl
  rw [counted]
  exact ⟨rfl, by rw [posted_resendData]; rfl, rfl⟩

theorem approach_resendReset (ctx : Context) (labelled : c.Labelled) (deadline : Nat) :
    Approach c (c.resendReset ctx deadline).log (c.resendReset ctx deadline).value.1 := by
  refine approach_of_mute (sentIds_resendReset_of_ne deadline labelled nofun) ?_
    (resendReset_sender ctx c deadline)
  rcases resendReset_value ctx c deadline with same | ⟨_, _, _, same⟩ <;> rw [same]

theorem approach_keepAlive (c : Channel) :
    Approach c (c.keepAlive ctx).log (c.keepAlive ctx).value := by
  refine approach_of_mute ?_ ?_ (keepAlive_sender c)
  · unfold keepAlive
    split
    · rw [ping, Logged.log_bind, sentIds_append, (silent_checkConnected _).sentIds]
      exact (List.append_nil _).trans ((sentIds_send _ _ _).trans (if_neg nofun))
    · rfl
  · unfold keepAlive
    split
    · exact meter_checkConnected _
    · rfl

/-- A tick that does not give up comes to look at the window in the end. -/
theorem tick_approach (labelled : c.Labelled) (lasts : (c.tick ctx).value.2 = none) :
    ∃ log d, Approach c log d ∧ (c.tick ctx).log = log ++ (d.closeWindow ctx).log ∧
      (c.tick ctx).value.1 = (d.closeWindow ctx).value := by
  obtain ⟨complete, logged, value⟩ := tick_of_lasts lasts
  have resent := approach_resendData labelled complete
  have labelled' : (c.resendData ctx (ctx.now + c.retransmitTimeout ctx.config)).value.1.Labelled :=
    Move.resendData.labelled labelled
  have asked := approach_resendReset ctx labelled' (ctx.now + c.retransmitTimeout ctx.config)
  refine ⟨_, _, (resent.trans asked).trans (approach_keepAlive _), ?_, value⟩
  rw [logged]
  simp only [List.append_assoc]

end Tick

section Limit

theorem limit_release (ws : List ParkedWrite) (c : Channel) :
    (release ctx ws c).value.sender.unacked.limit = c.sender.unacked.limit := by
  induction ws generalizing c with
  | nil => rfl
  | cons w ws ih =>
    simp only [release]
    split
    · exact ih (c.sendWrite ctx w).value
    · rfl

/-- Only a tick that closes a window may set another limit. -/
theorem limit_flush (c : Channel) :
    (c.flush ctx).value.sender.unacked.limit = c.sender.unacked.limit :=
  limit_release _ c

theorem limit_lt_tune_iff (c : Channel) (config : Config) (rates : Rates) :
    c.sender.unacked.limit < (c.tune config rates).sender.unacked.limit ↔
      30 < rates.sent ∧ c.sender.unacked.limit < config.maxQueueSize ∧ rates.repeated = 0 ∧
        c.sender.unacked.isFull = true := by
  unfold tune
  dsimp only
  split
  · next slow =>
    have slow := Nat.not_lt_of_le slow
    simp [slow]
  · next fast =>
    have fast := Nat.lt_of_not_le fast
    split
    · next grows =>
      refine iff_of_true ?_ ⟨fast, grows⟩
      show c.sender.unacked.limit < min (c.sender.unacked.limit + 8) config.maxQueueSize
      omega
    · next still =>
      refine iff_of_false ?_ fun grows => still grows.2
      split
      · show ¬c.sender.unacked.limit < max (c.sender.unacked.limit - 8) config.defaultQueueSize
        omega
      · exact Nat.lt_irrefl _

end Limit

section Close

theorem closeWindow_of_incomplete (incomplete : ctx.now - c.meter.windowStart < second) :
    c.closeWindow ctx = pure c := by
  simp only [closeWindow, RateMeter.roll?, incomplete, if_true]

/-- The rates in the window that a meter closes. -/
def ratesAt (m : RateMeter) (now : Nat) : Rates where
  sent := m.sent * 1000 / ((now - m.windowStart) / millisecond)
  repeated := m.repeated * 1000 / ((now - m.windowStart) / millisecond)

/-- The channel as soon as the next window is open. -/
def reopened (c : Channel) (now : Nat) : Channel :=
  { c with meter := { windowStart := now, last := ratesAt c.meter now } }

theorem closeWindow_of_complete (complete : second ≤ ctx.now - c.meter.windowStart) :
    c.closeWindow ctx =
      if ctx.config.autoTuneQueueSize then
        (c.reopened ctx.now).retune ctx (ratesAt c.meter ctx.now)
      else pure (c.reopened ctx.now) := by
  simp only [closeWindow, RateMeter.roll?, Nat.not_lt_of_le complete, if_false]
  rfl

/-- The next window begins with the writes that were parked. -/
theorem counts_closeWindow (complete : second ≤ ctx.now - c.meter.windowStart) :
    Counts (c.reopened ctx.now).meter (c.closeWindow ctx).log (c.closeWindow ctx).value.meter := by
  rw [closeWindow_of_complete complete]
  split
  · have flushed := counts_flush ctx ((c.reopened ctx.now).tune ctx.config (ratesAt c.meter ctx.now))
    obtain ⟨limit, tuned⟩ := (c.reopened ctx.now).tune_eq ctx.config (ratesAt c.meter ctx.now)
    have meter : ((c.reopened ctx.now).tune ctx.config (ratesAt c.meter ctx.now)).meter =
        (c.reopened ctx.now).meter := by rw [tuned]
    rwa [meter] at flushed
  · exact counts_of_mute _ rfl

theorem limit_lt_closeWindow_iff (complete : second ≤ ctx.now - c.meter.windowStart) :
    c.sender.unacked.limit < (c.closeWindow ctx).value.sender.unacked.limit ↔
      ctx.config.autoTuneQueueSize = true ∧ 30 < (ratesAt c.meter ctx.now).sent ∧
        c.sender.unacked.limit < ctx.config.maxQueueSize ∧
          (ratesAt c.meter ctx.now).repeated = 0 ∧ c.sender.unacked.isFull = true := by
  rw [closeWindow_of_complete complete]
  split
  · next auto =>
    have raised := (c.reopened ctx.now).limit_lt_tune_iff ctx.config (ratesAt c.meter ctx.now)
    rw [retune, limit_flush, auto]
    exact ⟨fun higher => ⟨rfl, raised.mp higher⟩, fun all => raised.mpr all.2⟩
  · next fixed =>
    exact iff_of_false (Nat.lt_irrefl _) fun raised => fixed raised.1

end Close

section Metered

/-- The meter of a channel counts what was sent in the window. -/
structure Metered (c : Channel) (w : RateWindow) : Prop where
  windowStart : c.meter.windowStart = w.start
  sent : c.meter.sent = w.first
  repeated : c.meter.repeated = w.again

variable {w : RateWindow}

theorem metered_create (key : Key) (generation : Nat) (config : Config) (now : Nat) :
    Metered (create key generation config now) { start := now } :=
  ⟨rfl, rfl, rfl⟩

theorem Metered.record (metered : Metered c w) (counts : Counts c.meter log c'.meter) :
    Metered c' (w.record log) := by
  constructor
  · rw [counts.windowStart, metered.windowStart]
    rfl
  · rw [counts.sent, metered.sent]
    rfl
  · rw [counts.repeated, metered.repeated]
    rfl

theorem Metered.tick (metered : Metered c w) (labelled : c.Labelled)
    (lasts : (c.tick ctx).value.2 = none) :
    Metered (c.tick ctx).value.1 (w.after ctx.now .tick (c.tick ctx).log) := by
  obtain ⟨log, d, approach, logged, value⟩ := tick_approach labelled lasts
  have approached := metered.record approach.counts
  rw [logged, value, RateWindow.after]
  split
  · next complete =>
    have complete : second ≤ ctx.now - d.meter.windowStart := by
      rwa [approached.windowStart]
    have counts := counts_closeWindow complete
    rw [posted_append, approach.unposted, List.nil_append]
    refine ⟨counts.windowStart, counts.sent.trans (Nat.zero_add _), ?_⟩
    rw [counts.repeated, repeated_closeWindow]
    rfl
  · next incomplete =>
    have incomplete : ctx.now - d.meter.windowStart < second := by
      rw [approached.windowStart]
      exact Nat.lt_of_not_le incomplete
    rw [closeWindow_of_incomplete incomplete, Logged.log_pure, List.append_nil]
    exact approached

theorem Metered.apply (metered : Metered c w) (labelled : c.Labelled)
    (lasts : op = .tick → (c.tick ctx).value.2 = none) :
    Metered (c.apply ctx op).value (w.after ctx.now op (c.apply ctx op).log) := by
  by_cases tick : op = .tick
  · subst tick
    exact metered.tick labelled (lasts rfl)
  · have counts : Counts c.meter (c.apply ctx op).log (c.apply ctx op).value.meter := by
      rcases apply_cases ctx op c with ⟨ws, moves⟩ | ⟨reason, rfl⟩
      · exact moves.counts tick
      · exact counts_of_mute _ ((silent_destroy c reason).sentIds _)
    have recorded := metered.record counts
    cases op with
    | tick => exact absurd rfl tick
    | _ => exact recorded

theorem Metered.run (ops : List (Nat × Op)) (metered : Metered c w) (labelled : c.Labelled)
    (lives : LivesOn config clock ops c) :
    Metered (run config clock ops c).value (windowAfter config clock ops c w) := by
  induction ops generalizing c w with
  | nil => exact metered
  | cons step ops ih =>
    exact ih (metered.apply labelled lives.1) (labelled.apply _ step.2) lives.2

end Metered

section Raise

/-- The window as a tick closes it: what the tick sends again belongs to it. -/
def RateWindow.closing (w : RateWindow) (log : List Effect) : RateWindow :=
  { w with again := w.again + (repeated .data log).length }

/-- What has to be so for a tick to raise the limit. Both rates are those of whole milliseconds, and
the rate of packets that are sent again is rounded down to nothing. -/
structure Earns (config : Config) (now : Nat) (c : Channel) (w : RateWindow) : Prop where
  tunes : config.autoTuneQueueSize = true
  complete : second ≤ w.elapsed now
  below : c.sender.unacked.limit < config.maxQueueSize
  full : c.sender.unacked.isFull = true
  fast : 31 * (w.elapsed now / millisecond) ≤ w.first * 1000
  clean : w.again * 1000 < w.elapsed now / millisecond

variable {w : RateWindow} {now : Nat}

/-- Packets are sent again less than once in a second, and so not at all in a window of one second. -/
theorem Earns.rates (earns : Earns config now c w) :
    30 * w.elapsed now < w.first * second ∧ w.again * second < w.elapsed now ∧
      (w.elapsed now < second + millisecond → w.again = 0) := by
  have complete := earns.complete
  have fast := earns.fast
  have clean := earns.clean
  simp only [second, millisecond] at complete fast clean ⊢
  omega

theorem Approach.earns_iff {rest : List Effect} (approach : Approach c log d)
    (metered : Metered c w) (complete : second ≤ w.elapsed ctx.now)
    (fresh : repeated .data rest = []) :
    c.sender.unacked.limit < (d.closeWindow ctx).value.sender.unacked.limit ↔
      Earns ctx.config ctx.now c (w.closing (log ++ rest)) := by
  have approached := metered.record approach.counts
  have elapsed : ctx.now - d.meter.windowStart = w.elapsed ctx.now := by
    rw [approached.windowStart]
    rfl
  have sent : d.meter.sent = w.first := by
    rw [approached.sent, RateWindow.record, approach.unposted]
    rfl
  have again : d.meter.repeated = (w.closing (log ++ rest)).again := by
    rw [approached.repeated, RateWindow.closing, repeated_append, fresh, List.append_nil]
    rfl
  have positive : 0 < w.elapsed ctx.now / millisecond := by
    simp only [second, millisecond] at complete ⊢
    omega
  have fast : 30 < (ratesAt d.meter ctx.now).sent ↔
      31 * (w.elapsed ctx.now / millisecond) ≤ w.first * 1000 := by
    rw [ratesAt, elapsed, sent]
    exact Nat.le_div_iff_mul_le positive
  have clean : (ratesAt d.meter ctx.now).repeated = 0 ↔
      (w.closing (log ++ rest)).again * 1000 < w.elapsed ctx.now / millisecond := by
    rw [ratesAt, elapsed, again]
    exact Nat.div_eq_zero_iff_lt positive
  rw [← approach.limit, limit_lt_closeWindow_iff (elapsed ▸ complete), fast, clean, approach.limit,
    SendQueue.isFull_congr approach.contents approach.limit]
  constructor
  · rintro ⟨tunes, fast, below, clean, full⟩
    exact ⟨tunes, complete, below, full, fast, clean⟩
  · intro earns
    exact ⟨earns.tunes, earns.fast, earns.below, earns.clean, earns.full⟩

theorem Metered.raises_iff (ctx : Context) (metered : Metered c w) (labelled : c.Labelled) :
    c.sender.unacked.limit < (c.tick ctx).value.1.sender.unacked.limit ↔
      (c.tick ctx).value.2 = none ∧ Earns ctx.config ctx.now c (w.closing (c.tick ctx).log) := by
  cases outcome : (c.tick ctx).value.2 with
  | some reason =>
    rw [limit_of_gone outcome]
    exact iff_of_false (Nat.lt_irrefl _) (fun both => nomatch both.1)
  | none =>
    obtain ⟨log, d, approach, logged, value⟩ := tick_approach labelled outcome
    rw [logged, value]
    by_cases complete : second ≤ w.elapsed ctx.now
    · rw [approach.earns_iff metered complete (repeated_closeWindow d)]
      exact ⟨fun earns => ⟨rfl, earns⟩, fun both => both.2⟩
    · have start := (metered.record approach.counts).windowStart
      have incomplete : ctx.now - d.meter.windowStart < second := by
        rw [start]
        exact Nat.lt_of_not_le complete
      rw [closeWindow_of_incomplete incomplete, Logged.value_pure, approach.limit]
      exact iff_of_false (Nat.lt_irrefl _) fun both => complete both.2.complete

/-- A tick of a living channel raises the limit just if it closes a window that earns it. Then the send
queue is full, and more than thirty data packets were sent for the first time in a second of the
window, on average. Less than one in a second was sent again. That is none in a window that is closed
within a millisecond after it is complete, and it may be some in a longer one. -/
theorem raises_limit_iff (config : Config) (clock : Clock) (key : Key) (generation start now : Nat)
    (ops : List (Nat × Op))
    (lives : LivesOn config clock ops (create key generation config start)) :
    let c₀ := create key generation config start
    let c := (run config clock ops c₀).value
    let x := c.tick ⟨now, config, clock⟩
    let w := (windowAfter config clock ops c₀ { start }).closing x.log
    (c.sender.unacked.limit < x.value.1.sender.unacked.limit ↔
      x.value.2 = none ∧ Earns config now c w) ∧
    (c.sender.unacked.limit < x.value.1.sender.unacked.limit →
      c.sender.unacked.isFull = true ∧ 30 * w.elapsed now < w.first * second ∧
        w.again * second < w.elapsed now ∧ (w.elapsed now < second + millisecond → w.again = 0)) := by
  have labelled := labelled_create key generation config start
  have metered := (metered_create key generation config start).run ops labelled lives
  have raises := metered.raises_iff ⟨now, config, clock⟩ (labelled.run config clock ops)
  refine ⟨raises, fun higher => ?_⟩
  obtain ⟨_, earns⟩ := raises.mp higher
  exact ⟨earns.full, earns.rates⟩

def wide : Config := { defaultQueueSize := 31 }

/-- The second packet of a stream is sent after its start was acknowledged, and thirty more much
later. -/
def lateBurst : List (Nat × Op) :=
  [(0, .write ⟨0, [1]⟩), (0, .packet (Packet.data 1 .streamStart 0 [1]).ack), (0, .write ⟨1, [2]⟩)] ++
    List.replicate 30 (990 * millisecond, .write ⟨2, [3]⟩)

theorem livesOn_lateBurst (c : Channel) : LivesOn wide ⟨0, 0⟩ lateBurst c :=
  livesOn_of_brief (by simp [lateBurst])

/-- A tick that comes after one second and one millisecond sends the second packet again and raises
the limit. -/
theorem raises_limit_iff_of_lateBurst :
    let c₀ := create ⟨⟨.v4 1, 1⟩, 1⟩ 1 wide 0
    let c := (run wide ⟨0, 0⟩ lateBurst c₀).value
    let x := c.tick ⟨1001 * millisecond, wide, ⟨0, 0⟩⟩
    let w := (windowAfter wide ⟨0, 0⟩ lateBurst c₀ { start := 0 }).closing x.log
    LivesOn wide ⟨0, 0⟩ lateBurst c₀ ∧ w.first = 32 ∧ w.again = 1 ∧
      c.sender.unacked.limit < x.value.1.sender.unacked.limit ∧
        x.value.2 = none ∧ Earns wide (1001 * millisecond) c w := by
  refine ⟨livesOn_lateBurst _, by decide +kernel, by decide +kernel, by decide +kernel, ?_⟩
  refine (raises_limit_iff wide ⟨0, 0⟩ ⟨⟨.v4 1, 1⟩, 1⟩ 1 0 (1001 * millisecond) lateBurst
    (livesOn_lateBurst _)).1.mp ?_
  decide +kernel

/-- The limit may be raised at the very moment at which a packet is sent again. -/
theorem not_clean_of_lateBurst : ¬∀ (config : Config) (clock : Clock) (key : Key)
    (generation start now : Nat) (ops : List (Nat × Op)),
    config.validate = .ok () → LivesOn config clock ops (create key generation config start) →
      let c₀ := create key generation config start
      let c := (run config clock ops c₀).value
      let x := c.tick ⟨now, config, clock⟩
      let w := (windowAfter config clock ops c₀ { start }).closing x.log
      c.sender.unacked.limit < x.value.1.sender.unacked.limit →
        c.sender.unacked.isFull = true ∧ 30 * w.elapsed now < w.first * second ∧ w.again = 0 := by
  intro clean
  have none := (clean wide ⟨0, 0⟩ ⟨⟨.v4 1, 1⟩, 1⟩ 1 0 (1001 * millisecond) lateBurst rfl
    (livesOn_lateBurst _) (by decide +kernel)).2.2
  revert none
  decide +kernel

end Raise

end ReliableDatagram.Channel
