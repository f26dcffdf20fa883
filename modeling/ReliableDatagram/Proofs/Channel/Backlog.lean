import ReliableDatagram.Proofs.Channel.Answers

/-!
# The backlog of a sender

A sender numbers its packets in the order of the writes. As long as it does not start over, the
unacknowledged packets stand at increasing places of its stream, and the parked writes come next.
Writes stay parked only while the send queue takes no more, so that an empty send queue means that
nothing is parked either.
-/

namespace ReliableDatagram.Channel

open PacketId

def Sender.unackedIds (s : Sender) : List PacketId := s.unacked.contents.map Prod.fst

def dataIds (ps : List Packet) : List PacketId :=
  (ps.filter (·.header.kind == .data)).map (·.header.id)

@[simp] theorem dataIds_nil : dataIds [] = [] := rfl

@[simp] theorem dataIds_append (ps qs : List Packet) :
    dataIds (ps ++ qs) = dataIds ps ++ dataIds qs := by simp [dataIds]

theorem dataIds_of_data {ps : List Packet} (data : ∀ p ∈ ps, p.header.kind = .data) :
    dataIds ps = ps.map (·.header.id) := by
  rw [dataIds, List.filter_eq_self.mpr fun p mem => by simp [data p mem]]

theorem dataIds_of_inert {ps : List Packet} (inert : ∀ p ∈ ps, p.header.kind ≠ .data) :
    dataIds ps = [] := by
  rw [dataIds, List.filter_eq_nil_iff.mpr fun p mem => by simp [inert p mem]]
  rfl

section Ranked

variable {m k : Nat} {ks : List Nat} {ids : List PacketId} {id : PacketId}

/-- The ids of packets at these places of a stream, in increasing order and all before `m`. -/
structure Ranked (m : Nat) (ks : List Nat) (ids : List PacketId) : Prop where
  order : ks.Pairwise (· < ·)
  bound : ∀ k ∈ ks, k < m
  ids : ids = ks.map nth

theorem Ranked.nil (m : Nat) : Ranked m [] [] := ⟨.nil, nofun, rfl⟩

theorem Ranked.tail (ranked : Ranked m (k :: ks) (id :: ids)) : Ranked m ks ids :=
  ⟨ranked.order.tail, fun j mem => ranked.bound j (List.mem_cons_of_mem _ mem),
    (List.cons_eq_cons.mp ranked.ids).2⟩

theorem Ranked.append_range (ranked : Ranked m ks ids) (count : Nat) :
    Ranked (m + count) (ks ++ List.range' m count) (ids ++ (List.range' m count).map nth) := by
  refine ⟨List.pairwise_append.mpr ⟨ranked.order, List.pairwise_lt_range', ?_⟩, fun j mem => ?_, ?_⟩
  · intro j old k new
    have := ranked.bound j old
    have := List.mem_range'_1.mp new
    omega
  · rcases List.mem_append.mp mem with old | new
    · have := ranked.bound j old
      omega
    · exact (List.mem_range'_1.mp new).2
  · rw [ranked.ids, List.map_append]

theorem Ranked.eraseP (ranked : Ranked m ks ids) (id : PacketId) :
    Ranked m (ks.eraseP fun k => nth k == id) (ids.eraseP (· == id)) := by
  refine ⟨ranked.order.sublist List.eraseP_sublist, fun k mem =>
    ranked.bound k (List.mem_of_mem_eraseP mem), ?_⟩
  rw [ranked.ids, List.eraseP_map]
  rfl

/-- Each place appears once, so that an id is gone once it was taken out. -/
theorem Ranked.gone (ranked : Ranked m ks ids) (short : m ≤ horizon)
    (left : k ∈ ks.eraseP fun k => nth k == id) : nth k ≠ id := by
  have bound := ranked.bound
  have order := ranked.order
  clear ranked
  induction ks with
  | nil => cases left
  | cons j ks ih =>
    have bounds := fun k mem => bound k (List.mem_cons_of_mem _ mem)
    obtain ⟨first, rest⟩ := List.pairwise_cons.mp order
    by_cases here : nth j = id
    · rw [List.eraseP_cons_of_pos (by simpa using here)] at left
      have later := first k left
      have := bounds k left
      rw [← here, Ne, nth_inj (by omega) (by omega)]
      omega
    · rw [List.eraseP_cons_of_neg (by simpa using here)] at left
      rcases List.mem_cons.mp left with rfl | left
      · exact here
      · exact ih left bounds rest

end Ranked

section Numbered

variable {total m : Nat} {ks : List Nat} {s s' : Sender}
variable {ctx : Context} {op : Op} {c c' : Channel} {log : List Effect} {ws : List ParkedWrite}

/-- Of so many writes in all the first `m` were sent, and the packets at these places are
unacknowledged. -/
structure Numbered (total m : Nat) (ks : List Nat) (s : Sender) : Prop where
  nextId : s.nextId = nth m
  total : m + s.parked.length = total
  unacked : Ranked m ks s.unackedIds

theorem Numbered.of_same (numbered : Numbered total m ks s) (nextId : s'.nextId = s.nextId)
    (contents : s'.unacked.contents = s.unacked.contents) (parked : s'.parked = s.parked) :
    Numbered total m ks s' := by
  refine ⟨nextId.trans numbered.nextId, ?_, ?_⟩
  · rw [parked]
    exact numbered.total
  · rw [Sender.unackedIds, contents]
    exact numbered.unacked

theorem Outward.numbered (outward : Outward ctx op c log c' ws)
    (quiet : ∀ y ∈ log, y.isReset = false) (numbered : Numbered total m ks c.sender) :
    ∃ m' ks', Numbered (total + ws.length) m' ks' c'.sender := by
  have ranked := numbered.unacked
  have sum := numbered.total
  cases outward with
  | rest nextId contents parked => exact ⟨m, ks, numbered.of_same nextId contents parked⟩
  | park nextId contents parked =>
    refine ⟨m, ks, nextId.trans numbered.nextId, ?_, ?_⟩
    · rw [parked, List.length_append, List.length_singleton]
      omega
    · rwa [Sender.unackedIds, contents]
  | send first _ packet _ nextId contents =>
    have longer := congrArg List.length first
    rw [List.length_cons] at longer
    refine ⟨m + 1, ks ++ List.range' m 1, ?_, ?_, ?_⟩
    · rw [nextId, numbered.nextId]
      rfl
    · rw [List.length_nil]
      omega
    · have grown := ranked.append_range 1
      rw [Sender.unackedIds, contents, List.map_append, numbered.nextId]
      exact grown
  | @settle p _ _ nextId contents parked =>
    refine ⟨m, ks.eraseP fun k => nth k == p.header.id, nextId.trans numbered.nextId,
      by rwa [parked], ?_⟩
    rw [Sender.unackedIds, contents, show (fun x : PacketId × Bytes => x.1 == p.header.id) =
      (· == p.header.id) ∘ Prod.fst from rfl, ← List.eraseP_map]
    exact ranked.eraseP p.header.id
  | startOver _ _ _ _ _ tells =>
    have reset := quiet (.emit (.resetLocal c.key)) (by rw [tells]; exact List.mem_cons_self)
    cases reset

theorem Moves.numbered (moves : Moves ctx op c log ws c') (sound : c.Sound) (known : op.Sound c.key)
    (quiet : ∀ y ∈ log, y.isReset = false) (numbered : Numbered total m ks c.sender) :
    ∃ m' ks', Numbered (total + ws.length) m' ks' c'.sender := by
  induction moves with
  | none => exact ⟨m, ks, numbered⟩
  | snoc before last ih =>
    obtain ⟨m', ks', next⟩ := ih fun y logged => quiet y (List.mem_append_left _ logged)
    have known' := known
    rw [← before.key] at known'
    have outward := last.outward (before.sound sound known) known'
    rw [List.length_append, ← Nat.add_assoc]
    exact outward.numbered (fun y logged => quiet y (List.mem_append_right _ logged)) next

end Numbered

section Advances

variable {total m : Nat} {ks : List Nat} {s s' s'' : Sender} {sent : List Packet}
variable {ctx : Context} {c : Channel}

/-- The sender goes on to send parked writes, under the next ids. -/
structure Advances (s : Sender) (sent : List Packet) (s' : Sender) : Prop where
  data : ∀ p ∈ sent, p.header.kind = .data
  unacked : s'.unackedIds = s.unackedIds ++ sent.map (·.header.id)
  places : ∀ m, s.nextId = nth m → s'.nextId = nth (m + sent.length) ∧
    sent.map (·.header.id) = (List.range' m sent.length).map nth
  parked : s'.parked.length + sent.length = s.parked.length

theorem Advances.rest (nextId : s'.nextId = s.nextId)
    (contents : s'.unacked.contents = s.unacked.contents) (parked : s'.parked = s.parked) :
    Advances s [] s' := by
  refine ⟨nofun, ?_, fun m at_ => ⟨nextId.trans at_, rfl⟩, by rw [parked]; rfl⟩
  rw [Sender.unackedIds, contents]
  exact (List.append_nil _).symm

theorem Advances.of_same (advances : Advances s' sent s'') (nextId : s'.nextId = s.nextId)
    (contents : s'.unacked.contents = s.unacked.contents) (parked : s'.parked = s.parked) :
    Advances s sent s'' := by
  obtain ⟨data, unacked, places, shorter⟩ := advances
  rw [Sender.unackedIds, Sender.unackedIds, contents] at unacked
  rw [nextId] at places
  rw [parked] at shorter
  exact ⟨data, unacked, places, shorter⟩

theorem Numbered.advance (numbered : Numbered total m ks s) (advances : Advances s sent s') :
    Numbered total (m + sent.length) (ks ++ List.range' m sent.length) s' := by
  obtain ⟨next, ids⟩ := advances.places m numbered.nextId
  have sum := numbered.total
  have shorter := advances.parked
  refine ⟨next, by omega, ?_⟩
  rw [advances.unacked, ids]
  exact numbered.unacked.append_range sent.length

theorem advances_release (ws : List ParkedWrite) (c : Channel) (parked : c.sender.parked = ws)
    (channel_le : c.key.channel ≤ Packet.maxChannel) (short : ∀ w ∈ ws, w.payload.length ≤ 0xffff) :
    Advances c.sender (packets (release ctx ws c).log) (release ctx ws c).value.sender := by
  induction ws generalizing c with
  | nil => exact .rest rfl rfl parked.symm
  | cons w ws ih =>
    simp only [release]
    split
    · have first : packets (c.sendWrite ctx w).log =
          [.data c.key.channel c.sender.nextId ctx.timestamp w.payload] := by
        rw [log_sendWrite_packet rfl, packets_append,
          packets_send _ (Packet.wellFormed_data channel_le (short w List.mem_cons_self))]
        rfl
      have rest := ih ((c.withParked ws).sendWrite ctx w).value rfl channel_le
        fun v waits => short v (List.mem_cons_of_mem _ waits)
      rw [sendWrite_withParked] at rest
      rw [release_withParked] at rest
      obtain ⟨data, unacked, places, shorter⟩ := rest
      rw [Logged.log_bind, Logged.value_bind, packets_append, first, List.singleton_append]
      refine ⟨fun p mem => ?_, ?_, fun m next => ?_, ?_⟩
      · rcases List.mem_cons.mp mem with rfl | later
        · rfl
        · exact data p later
      · rw [unacked, List.map_cons, ← List.singleton_append, ← List.append_assoc]
        congr 1
        rw [Sender.unackedIds, Sender.unackedIds]
        show ((c.sender.unacked.push (c.entryFor ctx w.payload)).contents).map _ = _
        rw [SendQueue.contents_push, List.map_append]
        rfl
      · obtain ⟨next', ids⟩ := places (m + 1) (congrArg PacketId.next next)
        rw [List.length_cons, List.map_cons, ids]
        refine ⟨?_, ?_⟩
        · rw [next']
          congr 1
          omega
        · exact congrArg (· :: _) next
      · have shorter : _ = ws.length := shorter
        rw [parked, List.length_cons, List.length_cons]
        omega
    · exact .rest rfl rfl parked.symm

theorem advances_flush (channel_le : c.key.channel ≤ Packet.maxChannel)
    (short : ∀ w ∈ c.sender.parked, w.payload.length ≤ 0xffff) :
    Advances c.sender (packets (c.flush ctx).log) (c.flush ctx).value.sender :=
  advances_release _ c rfl channel_le short

/-- An acknowledgement takes its packet out of the send queue, and what is parked then advances. -/
theorem onPacket_ack (ctx : Context) {p : Packet} (sound : c.Sound) (kind : p.header.kind = .ack) :
    ∃ s : Sender, s.nextId = c.sender.nextId ∧ s.parked = c.sender.parked ∧
      s.unackedIds = c.sender.unackedIds.eraseP (· == p.header.id) ∧
      Advances s (packets (c.onPacket ctx p).log) (c.onPacket ctx p).value.sender := by
  rw [onPacket_sender, packets_onPacket]
  simp only [dispatch, kind, onAck]
  have same : (c.heard ctx).sender = c.sender := rfl
  rw [same]
  have erased : (c.sender.unacked.contents.eraseP fun x => x.1 == p.header.id).map Prod.fst =
      c.sender.unackedIds.eraseP (· == p.header.id) := by
    rw [Sender.unackedIds, List.eraseP_map]
    rfl
  split
  · next lost =>
    refine ⟨c.sender, rfl, rfl, ?_, .rest rfl rfl rfl⟩
    refine (List.eraseP_of_forall_not fun x held => ?_).symm
    obtain ⟨_, stored, rfl⟩ := List.mem_map.mp held
    obtain ⟨entry, queued, rfl⟩ := List.mem_map.mp stored
    rw [SendQueue.remove?, Option.map_eq_none_iff, List.find?_eq_none] at lost
    exact lost entry queued
  · next entry unacked found =>
    refine ⟨_, ?_, ?_, ?_, advances_flush (by exact sound.channel_le) (by exact sound.parked)⟩
    · rfl
    · rfl
    · rw [← erased, ← SendQueue.contents_remove? found]
      rfl

end Advances

section Tick

variable {ctx : Context} {c : Channel} {deadline : Nat}

theorem keepAlive_sender (c : Channel) : (c.keepAlive ctx).value.sender = c.sender := by
  unfold keepAlive
  split
  · exact checkConnected_sender _
  · rfl

theorem dataIds_keepAlive (channel_le : c.key.channel ≤ Packet.maxChannel) :
    dataIds (packets (c.keepAlive ctx).log) = [] := by
  refine dataIds_of_inert fun p sent => ?_
  unfold keepAlive at sent
  split at sent
  · unfold ping at sent
    rw [Logged.log_bind, packets_append, packets_checkConnected, List.append_nil,
      packets_transmit (Packet.wellFormed_ping channel_le (by decide))] at sent
    rcases List.mem_singleton.mp sent with rfl
    nofun
  · cases sent

/-- When a rate window closes, there may be room for parked writes. -/
theorem advances_closeWindow (ctx : Context) (sound : c.Sound) :
    Advances c.sender (packets (c.closeWindow ctx).log) (c.closeWindow ctx).value.sender := by
  unfold closeWindow
  split
  · exact .rest rfl rfl rfl
  · next meter complete =>
    dsimp only
    split
    · refine (advances_flush ?_ ?_).of_same ?_ ?_ ?_
      · rw [tune_key]
        exact sound.channel_le
      · rw [tune_parked]
        exact sound.parked
      · rw [tune_nextId]
      · rw [tune_contents]
      · rw [tune_parked]
    · exact .rest rfl rfl rfl

/-- A channel that lives on after a tick has no spent packet. What it does is three things. -/
theorem tick_kept (kept : (c.tick ctx).value.2 = none) (idle : c.receiver.pendingReset = none) :
    ∃ d, d = (c.resendData ctx (ctx.now + c.retransmitTimeout ctx.config)).value.1 ∧
      c.sender.unacked.spent ctx.now ctx.config.maxResendAttempts = [] ∧
      (c.tick ctx).value.1 = ((d.keepAlive ctx).value.closeWindow ctx).value ∧
      (c.tick ctx).log = (c.resendData ctx (ctx.now + c.retransmitTimeout ctx.config)).log ++
        ((d.keepAlive ctx).log ++ ((d.keepAlive ctx).value.closeWindow ctx).log) := by
  generalize attempt : c.resendData ctx (ctx.now + c.retransmitTimeout ctx.config) = x
  obtain ⟨⟨d, spent⟩, log⟩ := x
  have exhausted : (!(c.sender.unacked.spent ctx.now ctx.config.maxResendAttempts).isEmpty) = spent :=
    congrArg (·.value.2) attempt
  have idle : d.receiver.pendingReset = none := by
    rw [← idle, ← resendData_receiver c (ctx.now + c.retransmitTimeout ctx.config), attempt]
  have still (deadline : Nat) : d.resendReset ctx deadline = pure (d, false) := by
    unfold resendReset
    rw [idle]
  refine ⟨d, rfl, ?_⟩
  unfold tick at kept ⊢
  split at kept
  · cases kept
  · next heard =>
    rw [if_neg heard]
    simp only [attempt, Logged.value_bind, Logged.log_bind] at kept ⊢
    split at kept
    · cases kept
    · next going =>
      rw [if_neg going, still]
      refine ⟨?_, rfl, ?_⟩
      · subst exhausted
        simpa using going
      · show log ++ ((d.keepAlive ctx).log ++
          (((d.keepAlive ctx).value.closeWindow ctx).log ++ [])) = _
        rw [List.append_nil]

theorem dataIds_resendData (kept : c.sender.unacked.spent ctx.now ctx.config.maxResendAttempts = [])
    (due : ∀ entry ∈ c.sender.unacked.entries, entry.deadline ≤ ctx.now)
    (stored : ∀ x ∈ c.sender.unacked.contents, ∃ p : Packet, p.WellFormed ∧ p.header.kind = .data ∧
      x = (p.header.id, p.encode)) :
    dataIds (packets (c.resendData ctx deadline).log) = c.sender.unackedIds := by
  have live := c.sender.unacked.live_append_spent ctx.now ctx.config.maxResendAttempts
  rw [kept, List.append_nil] at live
  rw [log_resendData, live, List.filter_eq_self.mpr fun entry mem => by
    simpa [SendQueue.Entry.isExpired] using due entry mem]
  rw [Sender.unackedIds, SendQueue.contents] at *
  clear live kept due
  generalize c.sender.unacked.entries = entries at stored
  induction entries with
  | nil => rfl
  | cons entry entries ih =>
    obtain ⟨p, wellFormed, kind, same⟩ := stored (entry.id, entry.packet) List.mem_cons_self
    obtain ⟨id, bytes⟩ := Prod.mk.inj same
    have first : packets [.resend c.key.addr entry.packet] = [p] := by
      simp [packets, bytes, Effect.packet?_resend c.key.addr wellFormed]
    rw [List.map_cons, ← List.singleton_append, packets_append, first, dataIds_append,
      ih fun x held => stored x (List.mem_cons_of_mem _ held), List.map_cons, List.map_cons, id,
      dataIds_of_data fun q mem => by
        rcases List.mem_singleton.mp mem with rfl
        exact kind]
    rfl

/-- A tick on which everything is due sends all unacknowledged packets again, oldest first, before
any packet of a write that was parked. -/
theorem tick_resends (sound : c.Sound) (idle : c.receiver.pendingReset = none)
    (kept : (c.tick ctx).value.2 = none)
    (due : ∀ entry ∈ c.sender.unacked.entries, entry.deadline ≤ ctx.now)
    (stored : ∀ x ∈ c.sender.unacked.contents, ∃ p : Packet, p.WellFormed ∧ p.header.kind = .data ∧
      x = (p.header.id, p.encode)) :
    ∃ sent, Advances c.sender sent (c.tick ctx).value.1.sender ∧
      dataIds (packets (c.tick ctx).log) = c.sender.unackedIds ++ sent.map (·.header.id) := by
  obtain ⟨d, same, unspent, value, log⟩ := tick_kept kept idle
  have resent : d.Sound := by
    rw [same]
    exact (Move.resendData (c := c)).sound sound trivial
  have keep : Moves ctx .tick d _ _ _ := moves_keepAlive d
  have advances := advances_closeWindow ctx (keep.sound resent trivial)
  rw [keepAlive_sender] at advances
  refine ⟨packets ((d.keepAlive ctx).value.closeWindow ctx).log, ?_, ?_⟩
  · rw [value]
    refine advances.of_same ?_ ?_ ?_
    · rw [same, resendData_nextId]
    · rw [same, resendData_contents]
    · rw [same, resendData_parked]
  · rw [log, packets_append, packets_append, dataIds_append, dataIds_append,
      dataIds_resendData unspent due stored, dataIds_keepAlive resent.channel_le, List.nil_append,
      dataIds_of_data advances.data]

end Tick

end ReliableDatagram.Channel
