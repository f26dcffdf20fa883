import ReliableDatagram.Proofs.Channel.NewestStream
import ReliableDatagram.Proofs.Channel.Traffic
import Mathlib.Data.List.Nodup

/-!
# Numbers of the packets of a sender

From the last time that a sender started over, it numbers its data packets one by one, the first one
being a stream start. It sends that one alone: nothing else goes out before an acknowledgement of it
comes in. `sender_numbered` says so of whatever happens to a channel, and that the send queue holds
some of these packets, in the order in which they were sent.
-/

namespace ReliableDatagram.Channel

open PacketId

variable {ctx : Context} {op : Op} {c c' : Channel} {log : List Effect} {ws : List ParkedWrite}
variable {p : Packet} {st : List (PacketId × Bytes)} {s s' : Sender}

section Stretch

/-- Whether the sender starts over: the peer asks for it, or starts another stream itself. -/
def Op.restarts (ctx : Context) (c : Channel) : Op → Bool
  | .packet p =>
    p.header.kind == .reset || p.header.kind == .data && decide (c.placeOf ctx p = .restart)
  | _ => false

/-- What happened since the sender started over last. The operation that made it do so is not among
the operations, but all that it logs belongs to the log: data goes out afterwards only. -/
structure Stretch where
  ops : List Op := []
  log : List Effect := []

def Stretch.extend (stretch : Stretch) (ctx : Context) (c : Channel) (op : Op) : Stretch :=
  if op.restarts ctx c then ⟨[], (c.apply ctx op).log⟩
  else ⟨stretch.ops ++ [op], stretch.log ++ (c.apply ctx op).log⟩

/-- The last stretch of a run that goes on with the given one. -/
def lastStretch (config : Config) (clock : Clock) : List (Nat × Op) → Channel → Stretch → Stretch
  | [], _, stretch => stretch
  | (now, op) :: ops, c, stretch =>
    lastStretch config clock ops (c.apply ⟨now, config, clock⟩ op).value
      (stretch.extend ⟨now, config, clock⟩ c op)

/-- Whether a stream start may leave the send queue by this operation. -/
def Op.Lifts : Op → Prop
  | .packet p => p.header.kind = .ack ∧ p.header.id = .streamStart
  | .destroy _ => True
  | _ => False

end Stretch

section Moves

/-- What a move does to the numbers of a sender that does not start over. -/
inductive Numbers (op : Op) (c : Channel) (log : List Effect) (c' : Channel) : Prop
  | rest (nextId : c'.sender.nextId = c.sender.nextId)
      (contents : c'.sender.unacked.contents = c.sender.unacked.contents)
      (new : posted .data log = [])
      (again : ∀ id ∈ sentIds .data log, ∃ x ∈ c.sender.unacked.contents, x.1 = id)
  | settle {p : Packet} (asked : op = .packet p) (kind : p.header.kind = .ack)
      (nextId : c'.sender.nextId = c.sender.nextId)
      (contents : c'.sender.unacked.contents =
        c.sender.unacked.contents.eraseP (·.1 == p.header.id))
      (silent : log = [])
  | post {bytes : Bytes} (room : c.sender.unacked.contains .streamStart = false)
      (nextId : c'.sender.nextId = c.sender.nextId.next)
      (contents : c'.sender.unacked.contents =
        c.sender.unacked.contents ++ [(c.sender.nextId, bytes)])
      (new : posted .data log = [(c.sender.nextId, bytes)])
      (all : sentIds .data log = [c.sender.nextId])

theorem Numbers.of_mute (same : c'.sender = c.sender) (mute : sentIds .data log = []) :
    Numbers op c log c' := by
  refine .rest (by rw [same]) (by rw [same]) (posted_eq_nil_of_sentIds mute) fun id sent => ?_
  rw [mute] at sent
  cases sent

theorem numbers_send {w : ParkedWrite} {rest : List ParkedWrite} (room : c.sender.canSend = true) :
    Numbers op c ((c.withParked rest).sendWrite ctx w).log
      ((c.withParked rest).sendWrite ctx w).value := by
  have room : c.sender.unacked.contains .streamStart = false := by
    simpa using (Bool.and_eq_true_iff.mp room).2
  exact .post room rfl (SendQueue.contents_push _ _) (posted_sendWrite _ _) (sentIds_sendWrite _ _)

theorem Move.numbers (move : Move ctx op c log ws c') (mild : op.Mild) (labelled : c.Labelled) :
    Numbers op c log c' := by
  cases move with
  | say speech => exact .of_mute rfl ((sentIds_send _ _ _).trans (if_neg speech.kind.1))
  | send _ room => exact numbers_send room
  | settle kind found => exact .settle rfl kind rfl (SendQueue.contents_remove? found) rfl
  | startOver kind => exact absurd kind mild.1
  | restart kind place => exact absurd (Receiver.place_eq_restart place).1 (mild.2 kind)
  | measure => exact .of_mute rfl ((silent_onAckPing _ _).sentIds _)
  | accept | acceptStart => exact .of_mute (by simp) (sentIds_accept _ _)
  | confirm | keep => exact .of_mute rfl (sentIds_send _ _ _)
  | requestReset _ _ idle =>
    exact .of_mute (by rw [requestReset_idle idle]) (sentIds_requestReset _ idle)
  | resendData =>
    exact .rest (by simp) (by simp) (posted_resendData _ _)
      fun id sent => (mem_sentIds_resendData labelled sent).2
  | resendReset => exact .of_mute (by simp) (sentIds_resendReset_of_ne _ labelled nofun)
  | tune => exact .rest (by simp) (by simp) rfl nofun
  | _ => exact .rest rfl rfl rfl nofun

end Moves

section InStretch

/-- The sender has sent these packets since it started over. -/
structure InStretch (st : List (PacketId × Bytes)) (s : Sender) : Prop where
  ids : st.map Prod.fst = (List.range st.length).map nth
  nextId : s.nextId = nth st.length
  held : s.unacked.contents.Sublist st
  alone : s.unacked.contains .streamStart = true → st.length = 1

/-- A stream start that was sent is still in the send queue. -/
def Barred (st : List (PacketId × Bytes)) (s : Sender) : Prop :=
  st = [] ∨ s.unacked.contains .streamStart = true

theorem inStretch_fresh (nextId : s.nextId = .streamStart) (empty : s.unacked.contents = []) :
    InStretch [] s := by
  refine ⟨rfl, nextId, empty ▸ .refl _, fun held => ?_⟩
  obtain ⟨bytes, held⟩ := SendQueue.contains_iff.mp held
  rw [empty] at held
  cases held

namespace InStretch

theorem id (stretch : InStretch st s) {k : Nat} {x : PacketId × Bytes} (found : st[k]? = some x) :
    x.1 = nth k := by
  have ids := congrArg (·[k]?) stretch.ids
  have short := (List.getElem?_eq_some_iff.mp found).1
  simpa [found, List.getElem?_range short] using ids

/-- Some packets are taken out of the send queue. -/
theorem settle (stretch : InStretch st s) (nextId : s'.nextId = s.nextId)
    (fewer : s'.unacked.contents.Sublist s.unacked.contents) : InStretch st s' := by
  refine ⟨stretch.ids, by rw [nextId, stretch.nextId], fewer.trans stretch.held, fun held => ?_⟩
  obtain ⟨bytes, held⟩ := SendQueue.contains_iff.mp held
  exact stretch.alone (SendQueue.contains_iff.mpr ⟨bytes, fewer.subset held⟩)

/-- A packet is sent, which must not wait behind a stream start. -/
theorem post (stretch : InStretch st s) {bytes : Bytes}
    (room : s.unacked.contains .streamStart = false) (nextId : s'.nextId = s.nextId.next)
    (contents : s'.unacked.contents = s.unacked.contents ++ [(s.nextId, bytes)]) :
    InStretch (st ++ [(s.nextId, bytes)]) s' := by
  refine ⟨?_, ?_, ?_, fun held => ?_⟩
  · rw [List.map_append, stretch.ids, List.length_append, List.length_singleton,
      List.range_succ, List.map_append, stretch.nextId]
    rfl
  · rw [nextId, stretch.nextId, List.length_append]
    rfl
  · rw [contents]
    exact stretch.held.append (.refl _)
  · obtain ⟨old, held⟩ := SendQueue.contains_iff.mp held
    rw [contents] at held
    rcases List.mem_append.mp held with held | new
    · rw [SendQueue.contains_iff.mpr ⟨old, held⟩] at room
      cases room
    · have first : s.nextId = .streamStart := (congrArg Prod.fst (List.mem_singleton.mp new)).symm
      rw [stretch.nextId, nth_eq_streamStart] at first
      rw [List.length_append, first]
      rfl

/-- A packet that is in the send queue together with the stream start is the stream start. -/
theorem eq_start (stretch : InStretch st s) (barred : Barred st s) {x : PacketId × Bytes}
    (held : x ∈ s.unacked.contents) : x.1 = .streamStart := by
  have sent := stretch.held.subset held
  rcases barred with rfl | start
  · cases sent
  · obtain ⟨first, rfl⟩ := List.length_eq_one_iff.mp (stretch.alone start)
    rcases List.mem_singleton.mp sent with rfl
    exact stretch.id (k := 0) rfl

end InStretch

end InStretch

section Stands

/-- What a sender has sent since it started over, and that all of it is the stream start, unless
something may have taken that one out of the send queue. -/
structure Stands (lifted : Prop) (log : List Effect) (s : Sender) : Prop where
  inStretch : InStretch (posted .data log) s
  barred : ¬lifted → Barred (posted .data log) s
  starts : ¬lifted → ∀ id ∈ sentIds .data log, id = .streamStart

variable {lifted lifted' : Prop} {before : List Effect}

theorem stands_fresh (nextId : s.nextId = .streamStart) (empty : s.unacked.contents = []) :
    Stands lifted [] s :=
  ⟨inStretch_fresh nextId empty, fun _ => .inl rfl, fun _ => nofun⟩

theorem Stands.mono (stands : Stands lifted log s) (weaker : lifted → lifted') :
    Stands lifted' log s :=
  ⟨stands.inStretch, fun closed => stands.barred (mt weaker closed),
    fun closed => stands.starts (mt weaker closed)⟩

/-- Only the data packets of the log matter. -/
theorem Stands.of_views {log' : List Effect} (stands : Stands lifted log s)
    (new : posted .data log' = posted .data log) (all : sentIds .data log' = sentIds .data log) :
    Stands lifted log' s := by
  obtain ⟨inStretch, barred, starts⟩ := stands
  exact ⟨by rwa [new], by rwa [new], by rwa [all]⟩

theorem Stands.mute_append {log' : List Effect} (stands : Stands lifted log s)
    (mute : sentIds .data log' = []) : Stands lifted (log' ++ log) s :=
  stands.of_views (by simp [posted_eq_nil_of_sentIds mute]) (by simp [mute])

theorem Stands.append_mute {log' : List Effect} (stands : Stands lifted log s)
    (mute : sentIds .data log' = []) : Stands lifted (log ++ log') s :=
  stands.of_views (by simp [posted_eq_nil_of_sentIds mute]) (by simp [mute])

theorem Numbers.stands (numbers : Numbers op c log c') (stands : Stands lifted before c.sender)
    (lifts : op.Lifts → lifted) : Stands lifted (before ++ log) c'.sender := by
  obtain ⟨inStretch, barred, starts⟩ := stands
  cases numbers with
  | rest nextId contents new again =>
    refine ⟨?_, fun closed => ?_, fun closed id sent => ?_⟩
    · rw [posted_append, new, List.append_nil]
      exact inStretch.settle nextId (contents ▸ .refl _)
    · rw [posted_append, new, List.append_nil]
      simpa only [Barred, SendQueue.contains_iff, contents] using barred closed
    · rw [sentIds_append] at sent
      rcases List.mem_append.mp sent with old | sent
      · exact starts closed id old
      · obtain ⟨x, held, rfl⟩ := again id sent
        exact inStretch.eq_start (barred closed) held
  | @settle p asked kind nextId contents silent =>
    subst silent
    rw [List.append_nil]
    refine ⟨inStretch.settle nextId (by rw [contents]; exact List.eraseP_sublist), fun closed => ?_,
      starts⟩
    have other : p.header.id ≠ .streamStart := fun start =>
      closed (lifts (by rw [asked]; exact ⟨kind, start⟩))
    rcases barred closed with none | start
    · exact .inl none
    · obtain ⟨bytes, held⟩ := SendQueue.contains_iff.mp start
      refine .inr (SendQueue.contains_iff.mpr ⟨bytes, ?_⟩)
      rw [contents]
      exact (List.mem_eraseP_of_neg (by simpa using Ne.symm other)).mpr held
  | @post bytes room nextId contents new all =>
    have first (closed : ¬lifted) : c.sender.nextId = .streamStart := by
      rcases barred closed with none | start
      · rw [inStretch.nextId, none]
        rfl
      · rw [room] at start
        cases start
    refine ⟨?_, fun closed => .inr (SendQueue.contains_iff.mpr ⟨bytes, ?_⟩),
      fun closed id sent => ?_⟩
    · rw [posted_append, new]
      exact inStretch.post room nextId contents
    · rw [contents, first closed]
      exact List.mem_append_right _ List.mem_cons_self
    · rw [sentIds_append, all] at sent
      rcases List.mem_append.mp sent with old | sent
      · exact starts closed id old
      · rw [List.mem_singleton.mp sent]
        exact first closed

theorem Moves.stands (moves : Moves ctx op c log ws c') (mild : op.Mild) (labelled : c.Labelled)
    (stands : Stands lifted before c.sender) (lifts : op.Lifts → lifted) :
    Stands lifted (before ++ log) c'.sender := by
  induction moves with
  | none => rwa [List.append_nil]
  | snoc first last ih =>
    rw [← List.append_assoc]
    exact (last.numbers mild (first.labelled labelled)).stands ih lifts

/-- A sender that has just started over sends what was parked. -/
theorem stands_flush (ctx : Context) {d : Channel} (labelled : d.Labelled)
    (nextId : d.sender.nextId = .streamStart) (empty : d.sender.unacked.contents = []) :
    Stands False (d.flush ctx).log (d.flush ctx).value.sender :=
  (moves_flush d .ping).stands trivial labelled (stands_fresh nextId empty) id

theorem log_onPacket (ctx : Context) (c : Channel) (p : Packet) :
    ∃ rest, sentIds .data rest = [] ∧
      (c.onPacket ctx p).log = ((c.heard ctx).dispatch ctx p).log ++ rest :=
  ⟨_, (silent_checkConnected _).sentIds _, rfl⟩

theorem Labelled.startOver (labelled : c.Labelled) {d : Channel}
    (empty : d.sender.unacked.contents = [])
    (pending : ∀ r, d.receiver.pendingReset = some r → c.receiver.pendingReset = some r) :
    d.Labelled := by
  refine ⟨fun x held => ?_, fun r asked => labelled.request r (pending r asked)⟩
  rw [empty] at held
  cases held

theorem stands_onReset (labelled : c.Labelled) (p : Packet) :
    Stands False (c.onReset ctx p).log (c.onReset ctx p).value.sender := by
  have flushed := stands_flush ctx
    (d := { (c.transmit ctx p.ackReset).value with sender := c.sender.startOver })
    (labelled.startOver rfl fun _ pending => pending) rfl rfl
  have told : sentIds .data [.emit (.resetLocal c.key)] = [] := rfl
  exact (flushed.mute_append told).mute_append (sentIds_send _ _ _)

theorem stands_restart (labelled : c.Labelled) (p : Packet) :
    Stands False (c.startOver ctx >>= (·.acceptStart ctx p)).log
      (c.startOver ctx >>= (·.acceptStart ctx p)).value.sender := by
  have flushed := stands_flush ctx
    (d := { c with sender := c.sender.startOver, receiver := {} })
    (labelled.startOver rfl nofun) rfl rfl
  rw [Logged.value_bind, acceptStart_sender, Logged.log_bind]
  have told : sentIds .data [.emit (.resetLocal c.key)] = [] := rfl
  exact (flushed.mute_append told).append_mute (sentIds_accept _ _)

theorem stands_of_restarts (labelled : c.Labelled) (restarts : op.restarts ctx c = true) :
    Stands False (c.apply ctx op).log (c.apply ctx op).value.sender := by
  cases op with
  | packet p =>
    show Stands False (c.onPacket ctx p).log (c.onPacket ctx p).value.sender
    have heard : (c.heard ctx).Labelled := ⟨labelled.unacked, labelled.request⟩
    obtain ⟨rest, mute, log⟩ := log_onPacket ctx c p
    rw [onPacket_sender, log]
    refine Stands.append_mute ?_ mute
    simp only [Op.restarts, Bool.or_eq_true, Bool.and_eq_true, beq_iff_eq,
      decide_eq_true_eq] at restarts
    rcases restarts with kind | ⟨kind, place⟩
    · simp only [dispatch, kind]
      exact stands_onReset heard p
    · rw [dispatch_data kind]
      simp only [onData, place_heard place]
      exact stands_restart heard p
  | _ => cases restarts

/-- A stream start that does not make the sender start over does nothing to it. -/
theorem onPacket_streamStart (kind : p.header.kind = .data) (start : p.header.id = .streamStart)
    (stays : c.placeOf ctx p ≠ .restart) :
    (c.onPacket ctx p).value.sender = c.sender ∧ sentIds .data (c.onPacket ctx p).log = [] := by
  obtain ⟨rest, mute, log⟩ := log_onPacket ctx c p
  rw [onPacket_sender, log, sentIds_append, mute, List.append_nil, dispatch_data kind]
  have place := c.receiver.place_streamStart ctx.config.receiveWindow p.header.timestamp
  rw [← start] at place
  split at place
  · simp only [onData, place_heard place]
    exact ⟨acceptStart_sender _ p, sentIds_accept _ _⟩
  · split at place
    · simp only [onData, place_heard place]
      exact ⟨rfl, sentIds_send _ _ _⟩
    · exact absurd place stays

theorem Stands.apply (stands : Stands lifted before c.sender) (labelled : c.Labelled)
    (stays : op.restarts ctx c = false) :
    Stands (lifted ∨ op.Lifts) (before ++ (c.apply ctx op).log) (c.apply ctx op).value.sender := by
  have lifts : op.Lifts → lifted ∨ op.Lifts := .inr
  have stands : Stands (lifted ∨ op.Lifts) before c.sender := stands.mono .inl
  by_cases mild : op.Mild
  · rcases apply_cases ctx op c with ⟨_, moves⟩ | ⟨reason, rfl⟩
    · exact moves.stands mild labelled stands lifts
    · refine Stands.append_mute ?_ ((silent_destroy c reason).sentIds _)
      exact ⟨stands.inStretch.settle rfl (List.nil_sublist _),
        fun closed => absurd (lifts trivial) closed, fun closed => absurd (lifts trivial) closed⟩
  · cases op with
    | packet p =>
      simp only [Op.restarts, Bool.or_eq_false_iff, beq_eq_false_iff_ne, Bool.and_eq_false_iff,
        decide_eq_false_iff_not] at stays
      simp only [Op.Mild, not_and, not_forall, not_not] at mild
      obtain ⟨kind, start⟩ := mild stays.1
      obtain ⟨same, mute⟩ := onPacket_streamStart kind start
        (stays.2.resolve_left fun other => other kind)
      show Stands _ (before ++ (c.onPacket ctx p).log) (c.onPacket ctx p).value.sender
      rw [same]
      exact stands.append_mute mute
    | _ => exact absurd trivial mild

theorem Stands.extend {stretch : Stretch} (labelled : c.Labelled)
    (stands : Stands (∃ op ∈ stretch.ops, op.Lifts) stretch.log c.sender) (op : Op) :
    Stands (∃ op' ∈ (stretch.extend ctx c op).ops, op'.Lifts) (stretch.extend ctx c op).log
      (c.apply ctx op).value.sender := by
  unfold Stretch.extend
  split
  · next restarts => exact (stands_of_restarts labelled restarts).mono nofun
  · next stays =>
    refine (stands.apply labelled (by simpa using stays)).mono ?_
    rintro (⟨old, mem, lifts⟩ | lifts)
    · exact ⟨old, List.mem_append_left _ mem, lifts⟩
    · exact ⟨op, List.mem_append_right _ List.mem_cons_self, lifts⟩

theorem Stands.run (config : Config) (clock : Clock) (ops : List (Nat × Op)) {stretch : Stretch}
    (labelled : c.Labelled)
    (stands : Stands (∃ op ∈ stretch.ops, op.Lifts) stretch.log c.sender) :
    Stands (∃ op ∈ (lastStretch config clock ops c stretch).ops, op.Lifts)
      (lastStretch config clock ops c stretch).log (run config clock ops c).value.sender := by
  induction ops generalizing c stretch with
  | nil => exact stands
  | cons step ops ih => exact ih (labelled.apply _ _) (Stands.extend labelled stands step.2)

end Stands

/-- What is true of a sender, given what happened since it started over last. -/
structure WellNumbered (stretch : Stretch) (s : Sender) : Prop where
  fresh : s.nextId = .streamStart → s.unacked.contents = []
  startAlone : ∀ x ∈ s.unacked.contents, x.1 = .streamStart → s.unacked.contents = [x]
  ids : ∀ k x, (posted .data stretch.log)[k]? = some x →
    x.1 = nth k ∧ (x.1 = .streamStart ↔ k = 0)
  /-- Nothing but the stream start goes out before an acknowledgement of it has come in. -/
  startFirst : (∀ op ∈ stretch.ops, ¬op.Lifts) →
    ∀ id ∈ sentIds .data stretch.log, id = .streamStart
  /-- What is in the send queue was sent since then, in the same order. -/
  inOrder : s.unacked.contents.Sublist (posted .data stretch.log)
  distinct : (posted .data stretch.log).length ≤ cycle + 1 →
    (s.unacked.contents.map Prod.fst).Nodup

theorem InStretch.nodup (inStretch : InStretch st s) (short : st.length ≤ cycle + 1) :
    (s.unacked.contents.map Prod.fst).Nodup := by
  have ids : (st.map Prod.fst).Nodup := by
    rw [inStretch.ids]
    refine List.Nodup.map_on (fun j jMem k kMem same => ?_) List.nodup_range
    have jShort := List.mem_range.mp jMem
    have kShort := List.mem_range.mp kMem
    exact (nth_inj_cycle (by omega) (by omega)).mp same
  exact ids.sublist (inStretch.held.map Prod.fst)

theorem Stands.wellNumbered {stretch : Stretch}
    (stands : Stands (∃ op ∈ stretch.ops, op.Lifts) stretch.log s) : WellNumbered stretch s := by
  obtain ⟨inStretch, _, starts⟩ := stands
  refine ⟨fun first => ?_, fun x held start => ?_, fun k x found => ?_, fun closed => ?_,
    inStretch.held, inStretch.nodup⟩
  · rw [inStretch.nextId, nth_eq_streamStart] at first
    have none := inStretch.held
    rwa [List.length_eq_zero_iff.mp first, List.sublist_nil] at none
  · have contains : s.unacked.contains .streamStart = true :=
      SendQueue.contains_iff.mpr ⟨x.2, by rwa [← start]⟩
    have few := inStretch.held.length_le
    rw [inStretch.alone contains] at few
    obtain ⟨y, one⟩ := List.length_eq_one_iff.mp
      (Nat.le_antisymm few (List.length_pos_of_mem held))
    rw [one] at held ⊢
    rw [List.mem_singleton.mp held]
  · have id := inStretch.id found
    exact ⟨id, by rw [id, nth_eq_streamStart]⟩
  · exact starts fun ⟨op, mem, lifts⟩ => closed op mem lifts

/-- The bytes in the send queue of a sound channel are data packets of it. -/
theorem Sound.parse_unacked (sound : c.Sound) (labelled : c.Labelled) {x : PacketId × Bytes}
    (held : x ∈ c.sender.unacked.contents) :
    ∃ p, Packet.parse x.2 = .ok p ∧ p.header.kind = .data ∧ p.header.channel = c.key.channel ∧
      p.header.id = x.1 := by
  obtain ⟨p, bytes, wellFormed, channel, kind⟩ := sound.unacked x held
  have label := labelled.unacked x held
  rw [bytes, Packet.label?_encode] at label
  rw [bytes]
  exact ⟨p, Packet.parse_encode wellFormed, kind, channel, by simpa [kind] using label⟩

/-- Whatever has happened to a channel, at whatever times, its sender numbers its packets in order.
All that it holds are data packets of this channel, with the ids under which it holds them, if it was
given no writes but those that a packet can carry: a table refuses the others before they get here. -/
theorem sender_numbered (config : Config) (clock : Clock) (key : Key) (generation start : Nat)
    (ops : List (Nat × Op)) :
    WellNumbered (lastStretch config clock ops (create key generation config start) {})
        (run config clock ops (create key generation config start)).value.sender ∧
      (key.channel ≤ Packet.maxChannel →
        (∀ step ∈ ops, ∀ w ∈ step.2.writes, w.payload.length ≤ 0xffff) →
        ∀ x ∈ (run config clock ops
            (create key generation config start)).value.sender.unacked.contents,
          ∃ p, Packet.parse x.2 = .ok p ∧ p.header.kind = .data ∧
            p.header.channel = key.channel ∧ p.header.id = x.1) := by
  have labelled := labelled_create key generation config start
  constructor
  · exact (Stands.run config clock ops labelled (stands_fresh rfl rfl)).wellNumbered
  · intro channel_le short x held
    have sound : (create key generation config start).Sound := Table.sound_create channel_le
    have own : (run config clock ops (create key generation config start)).value.key = key :=
      key_run config clock ops _
    have parsed := (sound.run_of_short config clock short).parse_unacked
      (labelled.run config clock ops) held
    rwa [own] at parsed

/-- After the acknowledgement of the stream start, the second write is in the send queue. -/
def opened : List (Nat × Op) :=
  [(0, .write ⟨0, [1]⟩), (0, .packet (Packet.data 1 .streamStart 0 [1]).ack), (0, .write ⟨1, [2]⟩)]

theorem sender_numbered_of_opened :
    let c := (run {} ⟨0, 0⟩ opened (create ⟨⟨.v4 1, 1⟩, 1⟩ 1 {} 0)).value
    c.sender.unacked.contents = [(nth 1, (Packet.data 1 (nth 1) 0 [2]).encode)] ∧
      ∃ p, Packet.parse (Packet.data 1 (nth 1) 0 [2]).encode = .ok p ∧ p.header.kind = .data ∧
        p.header.channel = 1 ∧ p.header.id = nth 1 := by
  have held : (run {} ⟨0, 0⟩ opened (create ⟨⟨.v4 1, 1⟩, 1⟩ 1 {} 0)).value.sender.unacked.contents =
      [(nth 1, (Packet.data 1 (nth 1) 0 [2]).encode)] := by decide +kernel
  have short : ∀ step ∈ opened, ∀ w ∈ step.2.writes, w.payload.length ≤ 0xffff := by decide
  exact ⟨held, (sender_numbered {} ⟨0, 0⟩ ⟨⟨.v4 1, 1⟩, 1⟩ 1 0 opened).2 (by decide) short
    (nth 1, (Packet.data 1 (nth 1) 0 [2]).encode) (by rw [held]; exact List.mem_cons_self)⟩

/-- Before the peer asks for it, the sender sends two packets, and afterwards it begins anew. -/
example :
    let sent (ops : List (Nat × Op)) := (posted .data (lastStretch {} ⟨0, 0⟩ ops
      (create ⟨⟨.v4 1, 1⟩, 1⟩ 1 {} 0) {}).log).map fun x => x.1.raw
    sent opened = [0, 1] ∧
      sent (opened ++ [(0, .packet (.reset 1 0)), (0, .write ⟨2, [3]⟩)]) = [0] := by
  decide +kernel

end ReliableDatagram.Channel
