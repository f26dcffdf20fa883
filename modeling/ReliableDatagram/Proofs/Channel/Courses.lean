import ReliableDatagram.Proofs.Channel.Traffic
import ReliableDatagram.Proofs.Rtt
import Mathlib.Data.List.Forall2
import Mathlib.Data.List.TakeWhile

/-!
# Courses of transmissions

A packet that waits for an answer is sent once and then, each time a deadline passes, again, until
the answer comes or the attempts are used up. Its course is the list of the times at which it was
sent. `disciplined_data` and `disciplined_reset` account for all that a channel ever sends of data
and of requests to start over: it belongs to courses that keep their pace, and the courses that go
on lead to what the channel holds.
-/

namespace ReliableDatagram.Channel

variable {kind : Packet.Kind} {config : Config} {ctx : Context} {op : Op} {c c' : Channel}
variable {log : List Effect} {writes : List ParkedWrite}

/-- What is stored of a packet that waits for an answer. -/
structure Awaited where
  packet : Bytes
  deadline : Nat
  attempts : Nat

namespace Awaited

def ofEntry (e : SendQueue.Entry) : Awaited := ⟨e.packet, e.deadline, e.attempts⟩

def ofRequest (r : PendingReset) : Awaited := ⟨r.packet, r.deadline, r.attempts⟩

end Awaited

/-- Data waits for an acknowledgement, and a request to start over for a stream start. -/
def awaited (kind : Packet.Kind) (c : Channel) : List Awaited :=
  match kind with
  | .data => c.sender.unacked.entries.map Awaited.ofEntry
  | .reset => c.receiver.pendingReset.toList.map Awaited.ofRequest
  | _ => []

section Steps

/-- The time between a transmission and the deadline for an answer. -/
structure Within (config : Config) (sent deadline : Nat) : Prop where
  least : sent + config.baseRetransmitMargin ≤ deadline
  most : deadline ≤ sent + config.baseRetransmitMargin + config.maxRtt

theorem within_timeout (ctx : Context) (c : Channel) :
    Within ctx.config ctx.now (ctx.now + c.retransmitTimeout ctx.config) := by
  obtain ⟨least, most⟩ := c.rtt.retransmitTimeout_mem_Icc ctx.config.maxRtt
    ctx.config.baseRetransmitMargin
  constructor <;> rw [retransmitTimeout] <;> omega

/-- Some packets that are due are sent again, if they were not sent too often yet. -/
inductive Resends (now deadline budget : Nat) :
    List Awaited → List Bytes → List Awaited → Prop
  | nil : Resends now deadline budget [] [] []
  | skip {a : Awaited} {ws ws' : List Awaited} {sent : List Bytes}
      (rest : Resends now deadline budget ws sent ws') :
      Resends now deadline budget (a :: ws) sent (a :: ws')
  | again {a : Awaited} {ws ws' : List Awaited} {sent : List Bytes} (due : a.deadline ≤ now)
      (left : a.attempts < budget) (rest : Resends now deadline budget ws sent ws') :
      Resends now deadline budget (a :: ws) (a.packet :: sent)
        (⟨a.packet, deadline, a.attempts + 1⟩ :: ws')

/-- What a move does to the packets of a kind that wait: it drops some, sends a new one for the
first time, or sends some again. -/
inductive Handles (ctx : Context) (kind : Packet.Kind) (ws : List Awaited) (log : List Effect) :
    List Awaited → Prop
  | rest {ws' : List Awaited} (fewer : ws'.Sublist ws) (new : posted kind log = [])
      (old : repeated kind log = []) : Handles ctx kind ws log ws'
  | post {id : PacketId} {packet : Bytes} {deadline : Nat}
      (within : Within ctx.config ctx.now deadline) (new : posted kind log = [(id, packet)])
      (old : repeated kind log = []) : Handles ctx kind ws log (ws ++ [⟨packet, deadline, 0⟩])
  | again {ws' : List Awaited} {sent : List Bytes} {deadline : Nat}
      (within : Within ctx.config ctx.now deadline)
      (resends : Resends ctx.now deadline ctx.config.maxResendAttempts ws sent ws')
      (new : posted kind log = []) (old : repeated kind log = sent) : Handles ctx kind ws log ws'

theorem Handles.of_mute {ws ws' : List Awaited} (fewer : ws'.Sublist ws)
    (mute : sentIds kind log = []) : Handles ctx kind ws log ws' :=
  .rest fewer (posted_eq_nil_of_sentIds mute) (repeated_eq_nil_of_sentIds mute)

theorem Resends.refl (now deadline budget : Nat) (ws : List Awaited) :
    Resends now deadline budget ws [] ws := by
  induction ws with
  | nil => exact .nil
  | cons a ws ih => exact ih.skip

theorem Resends.append_refl {now deadline budget : Nat} {ws ws' : List Awaited}
    {sent : List Bytes} (resends : Resends now deadline budget ws sent ws') (more : List Awaited) :
    Resends now deadline budget (ws ++ more) sent (ws' ++ more) := by
  induction resends with
  | nil => exact .refl now deadline budget more
  | skip _ ih => exact ih.skip
  | again due left _ ih => exact ih.again due left

/-- A pass over packets that may all be sent again. -/
theorem resends_resendExpired {now budget : Nat} {entries : List SendQueue.Entry}
    (deadline : Nat) (live : ∀ e ∈ entries, e.isSpent now budget = false) :
    Resends now deadline budget (entries.map Awaited.ofEntry)
      ((entries.filter (SendQueue.Entry.isExpired now)).map (·.packet))
      ((SendQueue.resendExpired now deadline entries).map Awaited.ofEntry) := by
  induction entries with
  | nil => exact .nil
  | cons e entries ih =>
    have rest := ih fun x mem => live x (List.mem_cons_of_mem _ mem)
    have first := live e List.mem_cons_self
    simp only [SendQueue.resendExpired, List.map_cons] at rest ⊢
    by_cases due : e.isExpired now = true
    · rw [List.filter_cons_of_pos due, if_pos due]
      have left : e.attempts < budget := by simpa [SendQueue.Entry.isSpent, due] using first
      exact .again (of_decide_eq_true due) left rest
    · rw [List.filter_cons_of_neg due, if_neg due]
      exact rest.skip

theorem repeated_resendData (labelled : c.Labelled) (deadline : Nat) :
    repeated .data (c.resendData ctx deadline).log =
      ((c.sender.unacked.live ctx.now ctx.config.maxResendAttempts).filter
        (SendQueue.Entry.isExpired ctx.now)).map (·.packet) := by
  have live (e : SendQueue.Entry)
      (due : e ∈ (c.sender.unacked.live ctx.now ctx.config.maxResendAttempts).filter
        (SendQueue.Entry.isExpired ctx.now)) :
      Effect.repeated? .data (.resend c.key.addr e.packet) = some e.packet := by
    have held : e ∈ c.sender.unacked.entries := SendQueue.mem_of_mem_live (List.mem_filter.mp due).1
    have label := labelled.unacked _ (List.mem_map_of_mem held)
    simp [Effect.repeated?, label]
  rw [repeated, log_resendData, List.filterMap_map]
  exact List.filterMap_eq_map_iff_forall_eq_some.mpr live

/-- The ids of the packets that a pass over the send queue sends again. -/
theorem sentIds_resendData (labelled : c.Labelled) (deadline : Nat) :
    sentIds .data (c.resendData ctx deadline).log =
      ((c.sender.unacked.live ctx.now ctx.config.maxResendAttempts).filter
        (SendQueue.Entry.isExpired ctx.now)).map (·.id) := by
  rw [log_resendData, sentIds, List.filterMap_map]
  refine List.filterMap_eq_map_iff_forall_eq_some.mpr fun x due => ?_
  have held : x ∈ c.sender.unacked.entries := SendQueue.mem_of_mem_live (List.mem_filter.mp due).1
  have label := labelled.unacked (x.id, x.packet) (List.mem_map_of_mem held)
  simp [Effect.sentId?, Effect.datagram?, label]

theorem resendData_entries (ctx : Context) (c : Channel) (deadline : Nat) :
    (c.resendData ctx deadline).value.1.sender.unacked.entries =
      SendQueue.resendExpired ctx.now deadline
          (c.sender.unacked.live ctx.now ctx.config.maxResendAttempts) ++
        c.sender.unacked.spent ctx.now ctx.config.maxResendAttempts := by
  unfold resendData
  dsimp only
  split <;> rfl

theorem handles_resendData (labelled : c.Labelled) :
    Handles ctx .data (awaited .data c)
      (c.resendData ctx (ctx.now + c.retransmitTimeout ctx.config)).log
      (awaited .data (c.resendData ctx (ctx.now + c.retransmitTimeout ctx.config)).value.1) := by
  refine .again (within_timeout ctx c) ?_ (posted_resendData _ _) (repeated_resendData labelled _)
  have live (e : SendQueue.Entry)
      (mem : e ∈ c.sender.unacked.live ctx.now ctx.config.maxResendAttempts) :
      e.isSpent ctx.now ctx.config.maxResendAttempts = false := by
    simpa using List.mem_takeWhile_imp mem
  have resends := (resends_resendExpired (ctx.now + c.retransmitTimeout ctx.config) live).append_refl
      ((c.sender.unacked.spent ctx.now ctx.config.maxResendAttempts).map Awaited.ofEntry)
  rw [← List.map_append, ← List.map_append, c.sender.unacked.live_append_spent,
    ← resendData_entries] at resends
  exact resends

theorem Move.handles_data (move : Move ctx op c log writes c') (labelled : c.Labelled) :
    Handles ctx .data (awaited .data c) log (awaited .data c') := by
  have same (sender : c'.sender.unacked.entries = c.sender.unacked.entries)
      (mute : sentIds .data log = []) : Handles ctx .data (awaited .data c) log (awaited .data c') := by
    refine .of_mute ?_ mute
    rw [awaited, awaited, sender]
  cases move with
  | say speech => exact same rfl ((sentIds_send _ _ _).trans (if_neg speech.kind.1))
  | @send _ _ w rest =>
    have entries : awaited .data ((c.withParked rest).sendWrite ctx w).value =
        awaited .data c ++ [.ofEntry (c.entryFor ctx w.payload)] := List.map_append
    rw [entries]
    exact .post (within_timeout ctx c) (posted_sendWrite _ _) rfl
  | @settle p _ entry unacked _ _ found =>
    refine .of_mute ?_ rfl
    obtain ⟨_, _, taken⟩ := Option.map_eq_some_iff.mp found
    obtain ⟨_, rfl⟩ := Prod.mk.inj taken
    exact (List.eraseP_sublist).map _
  | startOver | restart => exact .of_mute (List.nil_sublist _) rfl
  | measure => exact same rfl ((silent_onAckPing _ _).sentIds _)
  | accept | acceptStart => exact same (by simp) (sentIds_accept _ _)
  | confirm | keep => exact same rfl (sentIds_send _ _ _)
  | requestReset _ _ idle =>
    exact same (by rw [requestReset_idle idle]) (sentIds_requestReset _ idle)
  | resendData => exact handles_resendData labelled
  | resendReset => exact same (by simp) (sentIds_resendReset_of_ne _ labelled nofun)
  | tune =>
    obtain ⟨limit, tuned⟩ := c.tune_eq ctx.config c.meter.last
    exact same (by rw [tuned]) rfl
  | _ => exact same rfl rfl

theorem handles_resendReset (labelled : c.Labelled) :
    Handles ctx .reset (awaited .reset c)
      (c.resendReset ctx (ctx.now + c.retransmitTimeout ctx.config)).log
      (awaited .reset (c.resendReset ctx (ctx.now + c.retransmitTimeout ctx.config)).value.1) := by
  unfold resendReset
  split
  · exact .of_mute (.refl _) rfl
  · next r pending =>
    split
    · exact .of_mute (.refl _) rfl
    · split
      · exact .of_mute (.refl _) rfl
      · next due left =>
        obtain ⟨id, label⟩ := labelled.request r pending
        have held : awaited .reset c = [.ofRequest r] := by rw [awaited, pending]; rfl
        have again : repeated .reset [.resend c.key.addr r.packet] = [r.packet] := by
          simp [repeated, Effect.repeated?, label]
        rw [held]
        exact .again (within_timeout ctx c)
          (Resends.nil.again (Nat.le_of_not_lt due) (Nat.lt_of_not_le left)) rfl again

theorem Move.handles_reset (move : Move ctx op c log writes c') (labelled : c.Labelled) :
    Handles ctx .reset (awaited .reset c) log (awaited .reset c') := by
  have same (request : c'.receiver.pendingReset = c.receiver.pendingReset)
      (mute : sentIds .reset log = []) :
      Handles ctx .reset (awaited .reset c) log (awaited .reset c') := by
    refine .of_mute ?_ mute
    rw [awaited, awaited, request]
  cases move with
  | say speech => exact same rfl ((sentIds_send _ _ _).trans (if_neg speech.kind.2.2))
  | send => exact same rfl (sentIds_sendWrite _ _)
  | measure => exact same rfl ((silent_onAckPing _ _).sentIds _)
  | restart | resetAnswered => exact .of_mute (List.nil_sublist _) rfl
  | accept => exact same (by rw [accept_receiver]; rfl) (sentIds_accept _ _)
  | acceptStart =>
    refine .of_mute ?_ (sentIds_accept _ _)
    rw [awaited, acceptStart_receiver]
    exact List.nil_sublist _
  | confirm | keep => exact same rfl (sentIds_send _ _ _)
  | requestReset _ _ idle =>
    have new : posted .reset (c.requestReset ctx).log = _ := posted_requestReset _ idle
    have none : awaited .reset c = [] := by rw [awaited, idle]; rfl
    rw [none]
    rw [requestReset_idle idle] at new ⊢
    exact .post (within_timeout ctx c) new rfl
  | resendData => exact same (by simp) (sentIds_resendData_of_ne _ labelled nofun)
  | resendReset => exact handles_resendReset labelled
  | tune => exact same (by simp) rfl
  | _ => exact same rfl rfl

end Steps

section History

def stamped (now : Nat) (log : List Effect) : List (Nat × Effect) := log.map (now, ·)

/-- What a run logs, with the times. -/
def history (config : Config) (clock : Clock) : List (Nat × Op) → Channel → List (Nat × Effect)
  | [], _ => []
  | (now, op) :: ops, c =>
    stamped now (c.apply ⟨now, config, clock⟩ op).log ++
      history config clock ops (c.apply ⟨now, config, clock⟩ op).value

theorem map_snd_history (config : Config) (clock : Clock) (ops : List (Nat × Op)) (c : Channel) :
    (history config clock ops c).map Prod.snd = (run config clock ops c).log := by
  induction ops generalizing c with
  | nil => rfl
  | cons step ops ih =>
    rw [history, List.map_append, ih, stamped, List.map_map]
    exact congrArg (· ++ _) (List.map_id _)

/-- The packets of a kind that are sent for the first time, with the times. -/
def firsts (kind : Packet.Kind) (h : List (Nat × Effect)) : List (Nat × Bytes) :=
  h.filterMap fun x => (x.2.posted? kind).map fun y => (x.1, y.2)

/-- The packets of a kind that are sent again, with the times. -/
def repeats (kind : Packet.Kind) (h : List (Nat × Effect)) : List (Nat × Bytes) :=
  h.filterMap fun x => (x.2.repeated? kind).map (x.1, ·)

variable {now : Nat} {h h' : List (Nat × Effect)}

theorem firsts_append : firsts kind (h ++ h') = firsts kind h ++ firsts kind h' :=
  List.filterMap_append

theorem repeats_append : repeats kind (h ++ h') = repeats kind h ++ repeats kind h' :=
  List.filterMap_append

theorem firsts_stamped :
    firsts kind (stamped now log) = (posted kind log).map fun y => (now, y.2) := by
  rw [firsts, stamped, List.filterMap_map, posted, List.map_filterMap]
  rfl

theorem repeats_stamped :
    repeats kind (stamped now log) = (repeated kind log).map (now, ·) := by
  rw [repeats, stamped, List.filterMap_map, repeated, List.map_filterMap]
  rfl

/-- What holds at first, and stays true through each move and when the channel is destroyed, holds of
a whole run and its history. -/
theorem history_induction {P : List (Nat × Effect) → Channel → Prop} {config : Config}
    {clock : Clock}
    (step : ∀ {now op d d' log writes h}, Move ⟨now, config, clock⟩ op d log writes d' →
      d.Labelled → P h d → P (h ++ stamped now log) d')
    (last : ∀ {now d h} reason, P h d →
      P (h ++ stamped now (d.destroy reason).log) (d.destroy reason).value)
    (ops : List (Nat × Op)) (labelled : c.Labelled) (start : P h c) :
    P (h ++ history config clock ops c) (run config clock ops c).value := by
  have chain {now : Nat} {op : Op} {d d' : Channel} {log : List Effect} {writes : List ParkedWrite}
      {h : List (Nat × Effect)} (moves : Moves ⟨now, config, clock⟩ op d log writes d')
      (labelled : d.Labelled) (start : P h d) : P (h ++ stamped now log) d' := by
    induction moves with
    | none => rwa [stamped, List.map_nil, List.append_nil]
    | snoc before move ih =>
      rw [stamped, List.map_append, ← List.append_assoc]
      exact step move (before.labelled labelled) ih
  induction ops generalizing c h with
  | nil => rwa [history, List.append_nil]
  | cons first ops ih =>
    obtain ⟨now, op⟩ := first
    rw [history, ← List.append_assoc]
    refine ih (labelled.apply _ op) ?_
    rcases apply_cases ⟨now, config, clock⟩ op c with ⟨_, moves⟩ | ⟨reason, rfl⟩
    · exact chain moves labelled start
    · exact last reason start

end History

section Courses

/-- The times at which one packet was sent: the first one, and the others, the latest first. -/
structure Course where
  packet : Bytes
  first : Nat
  again : List Nat := []

namespace Course

def times (k : Course) : List Nat := k.again ++ [k.first]

def last (k : Course) : Nat := k.again.headD k.first

def next (k : Course) (now : Nat) : Course := { k with again := now :: k.again }

/-- The packet is not sent again too often, and never too early. -/
structure Paced (config : Config) (k : Course) : Prop where
  budget : k.again.length ≤ config.maxResendAttempts
  spaced : k.times.IsChain fun later earlier => earlier + config.baseRetransmitMargin ≤ later

/-- What is stored of the packet agrees with its course. -/
structure LeadsTo (config : Config) (k : Course) (a : Awaited) : Prop where
  packet : k.packet = a.packet
  attempts : k.again.length = a.attempts
  deadline : Within config k.last a.deadline

theorem paced_once (config : Config) (packet : Bytes) (now : Nat) :
    Paced config ⟨packet, now, []⟩ :=
  ⟨Nat.zero_le _, List.IsChain.singleton _⟩

theorem Paced.next {k : Course} {now : Nat} (paced : k.Paced config)
    (left : k.again.length < config.maxResendAttempts)
    (spaced : k.last + config.baseRetransmitMargin ≤ now) : (k.next now).Paced config := by
  refine ⟨left, ?_⟩
  obtain ⟨packet, first, again⟩ := k
  cases again with
  | nil => exact List.isChain_cons_cons.mpr ⟨spaced, List.IsChain.singleton _⟩
  | cons t ts => exact List.isChain_cons_cons.mpr ⟨spaced, paced.spaced⟩

end Course

/-- All transmissions of packets of a kind, as they are spread over the courses that have ended and
those that go on. The latter lead to what is stored, one by one. -/
structure Spread (config : Config) (kind : Packet.Kind) (h : List (Nat × Effect))
    (ended live : List Course) (ws : List Awaited) : Prop where
  starts : (firsts kind h).Perm ((ended ++ live).map fun k => (k.first, k.packet))
  copies : (repeats kind h).Perm
    ((ended ++ live).flatMap fun k => k.again.map fun t => (t, k.packet))
  paced : ∀ k ∈ ended ++ live, k.Paced config
  leads : List.Forall₂ (Course.LeadsTo config) live ws

/-- Every transmission of a packet of this kind is part of a course that keeps its pace. -/
def Disciplined (config : Config) (kind : Packet.Kind) (h : List (Nat × Effect))
    (ws : List Awaited) : Prop :=
  ∃ ended live, Spread config kind h ended live ws

variable {now deadline : Nat} {h : List (Nat × Effect)} {ended live : List Course}
variable {ws ws' : List Awaited} {sent : List Bytes}

theorem disciplined_nil (config : Config) (kind : Packet.Kind) : Disciplined config kind [] [] :=
  ⟨[], [], .refl _, .refl _, nofun, .nil⟩

theorem exists_sublist_of_forall₂ {α β : Type} {R : α → β → Prop} {as : List α} {bs bs' : List β}
    (related : List.Forall₂ R as bs) (fewer : bs'.Sublist bs) :
    ∃ as', as'.Sublist as ∧ List.Forall₂ R as' bs' := by
  induction related generalizing bs' with
  | nil =>
    rw [List.sublist_nil.mp fewer]
    exact ⟨[], .refl _, .nil⟩
  | @cons a b as bs head _ ih =>
    cases fewer with
    | cons _ fewer =>
      obtain ⟨as', part, related⟩ := ih fewer
      exact ⟨as', part.cons _, related⟩
    | cons_cons _ fewer =>
      obtain ⟨as', part, related⟩ := ih fewer
      exact ⟨a :: as', part.cons_cons _, .cons head related⟩

/-- The courses of packets that are dropped have ended. -/
theorem Spread.rest (spread : Spread config kind h ended live ws) (fewer : ws'.Sublist ws) :
    Disciplined config kind h ws' := by
  obtain ⟨starts, copies, paced, leads⟩ := spread
  obtain ⟨live', part, leads'⟩ := exists_sublist_of_forall₂ leads fewer
  obtain ⟨dropped, perm⟩ := part.exists_perm_append
  have same : (ended ++ live).Perm ((ended ++ dropped) ++ live') := by
    rw [List.append_assoc]
    exact (perm.trans List.perm_append_comm).append_left ended
  exact ⟨ended ++ dropped, live', starts.trans (same.map _), copies.trans (same.flatMap_right _),
    fun k mem => paced k (same.mem_iff.mpr mem), leads'⟩

/-- A packet that is sent for the first time begins a course. -/
theorem Spread.post (spread : Spread config kind h ended live ws) (packet : Bytes)
    (within : Within config now deadline) {h' : List (Nat × Effect)}
    (new : firsts kind h' = firsts kind h ++ [(now, packet)])
    (old : repeats kind h' = repeats kind h) :
    Disciplined config kind h' (ws ++ [⟨packet, deadline, 0⟩]) := by
  obtain ⟨starts, copies, paced, leads⟩ := spread
  refine ⟨ended, live ++ [⟨packet, now, []⟩], ?_, ?_, ?_, ?_⟩
  · rw [new, ← List.append_assoc, List.map_append]
    exact starts.append_right _
  · rw [old, ← List.append_assoc, List.flatMap_append]
    simpa using copies
  · rw [← List.append_assoc]
    intro k mem
    rcases List.mem_append.mp mem with mem | new
    · exact paced k mem
    · rw [List.mem_singleton.mp new]
      exact Course.paced_once config packet now
  · exact List.rel_append leads (.cons ⟨rfl, rfl, within⟩ .nil)

/-- What is sent again goes on with its course. -/
theorem Resends.leads (resends : Resends now deadline config.maxResendAttempts ws sent ws')
    (within : Within config now deadline) (leads : List.Forall₂ (Course.LeadsTo config) live ws)
    (paced : ∀ k ∈ live, k.Paced config) :
    ∃ live', List.Forall₂ (Course.LeadsTo config) live' ws' ∧ (∀ k ∈ live', k.Paced config) ∧
      (live'.map fun k => (k.first, k.packet)) = (live.map fun k => (k.first, k.packet)) ∧
      (live'.flatMap fun k => k.again.map fun t => (t, k.packet)).Perm
        ((live.flatMap fun k => k.again.map fun t => (t, k.packet)) ++ sent.map (now, ·)) := by
  induction resends generalizing live with
  | nil =>
    cases leads
    exact ⟨[], .nil, nofun, rfl, .refl _⟩
  | skip _ ih =>
    cases leads with
    | @cons k _ live _ lead leads =>
      obtain ⟨live', leads', paced', starts, copies⟩ :=
        ih leads fun k mem => paced k (List.mem_cons_of_mem _ mem)
      refine ⟨k :: live', .cons lead leads',
        List.forall_mem_cons.mpr ⟨paced k List.mem_cons_self, paced'⟩, ?_, ?_⟩
      · rw [List.map_cons, List.map_cons, starts]
      · rw [List.flatMap_cons, List.flatMap_cons, List.append_assoc]
        exact copies.append_left _
  | @again a _ _ sent due left _ ih =>
    cases leads with
    | @cons k _ live _ lead leads =>
      obtain ⟨live', leads', paced', starts, copies⟩ :=
        ih leads fun k mem => paced k (List.mem_cons_of_mem _ mem)
      have spaced : k.last + config.baseRetransmitMargin ≤ now :=
        Nat.le_trans lead.deadline.least due
      have went : (k.next now).Paced config :=
        (paced k List.mem_cons_self).next (by rwa [lead.attempts]) spaced
      refine ⟨k.next now :: live', .cons ⟨lead.packet, ?_, within⟩ leads',
        List.forall_mem_cons.mpr ⟨went, paced'⟩, ?_, ?_⟩
      · exact congrArg (· + 1) lead.attempts
      · rw [List.map_cons, List.map_cons, starts]
        rfl
      · rw [List.flatMap_cons, List.flatMap_cons, List.map_cons, ← lead.packet]
        refine List.Perm.trans ?_ List.perm_middle.symm
        refine List.Perm.cons _ ?_
        rw [List.append_assoc]
        exact copies.append_left _

theorem Handles.disciplined {ctx : Context} (handles : Handles ctx kind ws log ws')
    (before : Disciplined ctx.config kind h ws) :
    Disciplined ctx.config kind (h ++ stamped ctx.now log) ws' := by
  obtain ⟨ended, live, spread⟩ := before
  cases handles with
  | rest fewer new old =>
    obtain ⟨ended', live', starts, copies, paced, leads⟩ := spread.rest fewer
    refine ⟨ended', live', ?_, ?_, paced, leads⟩
    · rw [firsts_append, firsts_stamped, new, List.map_nil, List.append_nil]
      exact starts
    · rw [repeats_append, repeats_stamped, old, List.map_nil, List.append_nil]
      exact copies
  | post within new old =>
    refine spread.post _ within ?_ ?_
    · rw [firsts_append, firsts_stamped, new]
      rfl
    · rw [repeats_append, repeats_stamped, old, List.map_nil, List.append_nil]
  | again within resends new old =>
    obtain ⟨starts, copies, paced, leads⟩ := spread
    obtain ⟨live', leads', paced', starts', copies'⟩ :=
      resends.leads within leads fun k mem => paced k (List.mem_append_right _ mem)
    refine ⟨ended, live', ?_, ?_, ?_, leads'⟩
    · rw [firsts_append, firsts_stamped, new, List.map_nil, List.append_nil, List.map_append,
        starts', ← List.map_append]
      exact starts
    · rw [repeats_append, repeats_stamped, old, List.flatMap_append]
      refine (copies.append_right _).trans ?_
      rw [List.flatMap_append, List.append_assoc]
      exact copies'.symm.append_left _
    · intro k mem
      rcases List.mem_append.mp mem with past | going
      · exact paced k (List.mem_append_left _ past)
      · exact paced' k going

theorem exists_mem_of_forall₂ {α β : Type} {R : α → β → Prop} {as : List α} {bs : List β}
    (related : List.Forall₂ R as bs) {b : β} (mem : b ∈ bs) : ∃ a ∈ as, R a b := by
  induction related with
  | nil => cases mem
  | @cons a b' as bs head _ ih =>
    rcases List.mem_cons.mp mem with rfl | mem
    · exact ⟨a, List.mem_cons_self, head⟩
    · obtain ⟨a', mem', tail⟩ := ih mem
      exact ⟨a', List.mem_cons_of_mem _ mem', tail⟩

theorem Disciplined.attempts_le (disciplined : Disciplined config kind h ws) {a : Awaited}
    (mem : a ∈ ws) : a.attempts ≤ config.maxResendAttempts := by
  obtain ⟨ended, live, spread⟩ := disciplined
  obtain ⟨k, going, lead⟩ := exists_mem_of_forall₂ spread.leads mem
  rw [← lead.attempts]
  exact (spread.paced k (List.mem_append_right _ going)).budget

theorem count_copies_eq_zero {ks : List Course} {packet : Bytes}
    (other : ∀ k ∈ ks, k.packet ≠ packet) :
    ((ks.flatMap fun k => k.again.map fun t => (t, k.packet)).map Prod.snd).count packet = 0 := by
  refine List.count_eq_zero.mpr fun mem => ?_
  obtain ⟨⟨t, _⟩, sent, rfl⟩ := List.mem_map.mp mem
  obtain ⟨k, mem, again⟩ := List.mem_flatMap.mp sent
  obtain ⟨_, _, same⟩ := List.mem_map.mp again
  exact other k mem (congrArg Prod.snd same)

/-- If no other packet has the same bytes, then these bytes were sent again just as often as the
stored packet tells. -/
theorem Disciplined.count_repeats (disciplined : Disciplined config kind h ws) {a : Awaited}
    (mem : a ∈ ws) (once : ((firsts kind h).map Prod.snd).count a.packet = 1) :
    ((repeats kind h).map Prod.snd).count a.packet = a.attempts := by
  obtain ⟨ended, live, starts, copies, _, leads⟩ := disciplined
  obtain ⟨k, going, lead⟩ := exists_mem_of_forall₂ leads mem
  obtain ⟨before, after, split⟩ := List.append_of_mem (List.mem_append_right ended going)
  rw [split] at starts copies
  rw [(starts.map Prod.snd).count_eq] at once
  rw [(copies.map Prod.snd).count_eq, ← lead.packet, ← lead.attempts]
  simp only [List.map_append, List.map_cons, List.map_map, List.count_append, lead.packet,
    List.count_cons_self] at once
  have others (ks : List Course) (none : (ks.map (Prod.snd ∘ fun k => (k.first, k.packet))).count
      a.packet = 0) : ∀ k' ∈ ks, k'.packet ≠ k.packet := by
    intro k' mem same
    refine List.count_eq_zero.mp none (List.mem_map.mpr ⟨k', mem, ?_⟩)
    rw [← lead.packet]
    exact same
  rw [List.flatMap_append, List.flatMap_cons, List.map_append, List.map_append, List.count_append,
    List.count_append, count_copies_eq_zero (others before (by omega)),
    count_copies_eq_zero (others after (by omega)), List.map_map]
  simp [Function.comp_def]

theorem Disciplined.destroy (ctx : Context) (before : Disciplined ctx.config kind h ws)
    (c : Channel) (reason : DisconnectReason) (gone : ws'.Sublist ws) :
    Disciplined ctx.config kind (h ++ stamped ctx.now (c.destroy reason).log) ws' :=
  (Handles.of_mute gone ((silent_destroy c reason).sentIds kind)).disciplined before

/-- All data that a channel sends, it sends in courses, and those that go on are of what is in the
send queue. -/
theorem disciplined_data (config : Config) (clock : Clock) (key : Key) (generation start : Nat)
    (ops : List (Nat × Op)) :
    Disciplined config .data (history config clock ops (create key generation config start))
      (awaited .data (run config clock ops (create key generation config start)).value) := by
  refine history_induction (P := fun h d => Disciplined config .data h (awaited .data d)) (h := [])
    ?_ ?_ ops (labelled_create key generation config start) (disciplined_nil config .data)
  · intro now op d d' log writes h move labelled before
    exact (move.handles_data labelled).disciplined before
  · intro now d h reason before
    exact before.destroy ⟨now, config, clock⟩ d reason (List.nil_sublist _)

/-- All requests to start over that a channel sends, it sends in courses, and the one that goes on is
of the pending request. -/
theorem disciplined_reset (config : Config) (clock : Clock) (key : Key) (generation start : Nat)
    (ops : List (Nat × Op)) :
    Disciplined config .reset (history config clock ops (create key generation config start))
      (awaited .reset (run config clock ops (create key generation config start)).value) := by
  refine history_induction (P := fun h d => Disciplined config .reset h (awaited .reset d)) (h := [])
    ?_ ?_ ops (labelled_create key generation config start) (disciplined_nil config .reset)
  · intro now op d d' log writes h move labelled before
    exact (move.handles_reset labelled).disciplined before
  · intro now d h reason before
    exact before.destroy ⟨now, config, clock⟩ d reason (List.nil_sublist _)

end Courses

end ReliableDatagram.Channel
