import ReliableDatagram.Proofs.Channel.Backlog
import ReliableDatagram.Proofs.Channel.Courses
import Mathlib.Data.List.Nodup

/-!
# What a sender remembers of its transmissions

A sender counts how often it sent again what waits for an acknowledgement. Unless it starts over, no
two of its packets have the same id, so that a packet which was not sent again was sent once, and is
never sent again after its acknowledgement.
-/

namespace ReliableDatagram.Channel

open PacketId

variable {clock : Clock} {ctx : Context} {op : Op} {c c' : Channel} {log : List Effect}
variable {ws : List ParkedWrite} {s s' : Sender} {total total' m m' now : Nat} {ks ks' : List Nat}
variable {sent more : List (Nat × Packet)} {settled : List PacketId} {id : PacketId} {p : Packet}

section Copies

def timed (now : Nat) (sent : List Packet) : List (Nat × Packet) := sent.map (now, ·)

@[simp] theorem timed_append (now : Nat) (sent sent' : List Packet) :
    timed now (sent ++ sent') = timed now sent ++ timed now sent' := List.map_append

theorem mem_timed {x : Nat × Packet} {sent : List Packet} (mem : x ∈ timed now sent) :
    x.1 = now ∧ x.2 ∈ sent := by
  obtain ⟨q, here, rfl⟩ := List.mem_map.mp mem
  exact ⟨rfl, here⟩

/-- The transmissions of data with this id. -/
def copies (id : PacketId) (sent : List (Nat × Packet)) : List (Nat × Packet) :=
  sent.filter fun x => x.2.header.kind = .data ∧ x.2.header.id = id

@[simp] theorem copies_append (id : PacketId) (sent sent' : List (Nat × Packet)) :
    copies id (sent ++ sent') = copies id sent ++ copies id sent' := List.filter_append _ _

theorem mem_copies {x : Nat × Packet} :
    x ∈ copies id sent ↔ x ∈ sent ∧ x.2.header.kind = .data ∧ x.2.header.id = id := by
  simp [copies]

theorem copies_eq_nil (other : ∀ x ∈ sent, x.2.header.kind = .data → x.2.header.id ≠ id) :
    copies id sent = [] :=
  List.filter_eq_nil_iff.mpr fun x mem => by simpa using other x mem

/-- Data with this id was sent once, and stamped then. -/
def SentOnce (clock : Clock) (id : PacketId) (sent : List (Nat × Packet)) : Prop :=
  ∃ t q, copies id sent = [(t, q)] ∧ q.header.timestamp = clock.timestamp t

theorem SentOnce.append (once : SentOnce clock id sent)
    (other : ∀ x ∈ more, x.2.header.kind = .data → x.2.header.id ≠ id) :
    SentOnce clock id (sent ++ more) := by
  obtain ⟨t, q, all, stamp⟩ := once
  exact ⟨t, q, by rw [copies_append, copies_eq_nil other, all, List.append_nil], stamp⟩

end Copies

section Moves

theorem mem_sentIds {kind : Packet.Kind} (mem : p ∈ packets log) (same : p.header.kind = kind) :
    p.header.id ∈ sentIds kind log := by
  obtain ⟨e, logged, seen⟩ := List.mem_filterMap.mp mem
  refine List.mem_filterMap.mpr ⟨e, logged, ?_⟩
  obtain ⟨d, datagram, parsed⟩ := Option.bind_eq_some_iff.mp seen
  have parsed : Packet.parse d.2 = .ok p := by
    cases outcome : Packet.parse d.2 with
    | error _ =>
      rw [outcome] at parsed
      cases parsed
    | ok q =>
      rw [outcome] at parsed
      rw [Option.some.inj parsed]
  simp [Effect.sentId?, datagram, ← Packet.encode_of_parse parsed, same]

/-- What is not sent again in a pass over the queue was there before, and nothing is sent under its
id. -/
theorem untouched_resendData {deadline : Nat} (labelled : c.Labelled)
    (distinct : c.sender.unackedIds.Nodup) {x : SendQueue.Entry}
    (held : x ∈ (c.resendData ctx deadline).value.1.sender.unacked.entries)
    (first : x.attempts = 0) :
    x ∈ c.sender.unacked.entries ∧ x.id ∉ sentIds .data (c.resendData ctx deadline).log := by
  rw [sentIds_resendData labelled]
  have parts := c.sender.unacked.live_append_spent ctx.now ctx.config.maxResendAttempts
  rw [resendData_entries] at held
  generalize c.sender.unacked.live ctx.now ctx.config.maxResendAttempts = live at held parts ⊢
  generalize c.sender.unacked.spent ctx.now ctx.config.maxResendAttempts = spent at held parts
  have ids : ((live ++ spent).map SendQueue.Entry.id).Nodup := by
    rw [Sender.unackedIds, SendQueue.contents, List.map_map, ← parts] at distinct
    exact distinct
  have here : x ∈ spent ∨ x ∈ live ∧ x.isExpired ctx.now = false := by
    rcases List.mem_append.mp held with passed | behind
    · obtain ⟨y, mem, same⟩ := List.mem_map.mp passed
      split at same
      · rw [← same] at first
        cases first
      · next waits => exact .inr ⟨same ▸ mem, same ▸ by simpa using waits⟩
    · exact .inl behind
  have mem : x ∈ live ++ spent := by
    rcases here with behind | ⟨front, _⟩
    · exact List.mem_append_right _ behind
    · exact List.mem_append_left _ front
  refine ⟨parts ▸ mem, fun sent => ?_⟩
  obtain ⟨y, due, same⟩ := List.mem_map.mp sent
  obtain ⟨front, expired⟩ := List.mem_filter.mp due
  obtain rfl : y = x := List.inj_on_of_nodup_map ids (List.mem_append_left _ front) mem same
  rcases here with behind | ⟨_, waits⟩
  · exact (List.disjoint_of_nodup_append ids.of_map) front behind
  · rw [expired] at waits
    cases waits

theorem Move.untouched (move : Move ctx op c log ws c') (labelled : c.Labelled)
    (distinct : c.sender.unackedIds.Nodup) {x : SendQueue.Entry}
    (held : x ∈ c'.sender.unacked.entries) (first : x.attempts = 0)
    (old : x.id ≠ c.sender.nextId) :
    x ∈ c.sender.unacked.entries ∧ x.id ∉ sentIds .data log := by
  have same (entries : c'.sender.unacked.entries = c.sender.unacked.entries)
      (mute : sentIds .data log = []) :
      x ∈ c.sender.unacked.entries ∧ x.id ∉ sentIds .data log := by
    rw [mute]
    exact ⟨entries ▸ held, List.not_mem_nil⟩
  cases move with
  | say speech => exact same rfl ((sentIds_send _ _ _).trans (if_neg speech.kind.1))
  | @send _ _ w rest =>
    rcases List.mem_append.mp held with here | new
    · rw [sentIds_sendWrite]
      exact ⟨here, fun sent => old (List.mem_singleton.mp sent)⟩
    · rw [List.mem_singleton.mp new] at old
      exact absurd rfl old
  | settle _ found =>
    obtain ⟨_, _, taken⟩ := Option.map_eq_some_iff.mp found
    obtain ⟨_, rfl⟩ := Prod.mk.inj taken
    exact ⟨List.mem_of_mem_eraseP held, List.not_mem_nil⟩
  | startOver | restart => cases held
  | measure => exact same rfl ((silent_onAckPing _ _).sentIds _)
  | accept | acceptStart => exact same (by simp) (sentIds_accept _ _)
  | confirm | keep => exact same rfl (sentIds_send _ _ _)
  | requestReset _ _ idle =>
    exact same (by rw [requestReset_idle idle]) (sentIds_requestReset _ idle)
  | resendData => exact untouched_resendData labelled distinct held first
  | resendReset => exact same (by simp) (sentIds_resendReset_of_ne _ labelled nofun)
  | tune =>
    obtain ⟨limit, tuned⟩ := c.tune_eq ctx.config c.meter.last
    exact same (by rw [tuned]) rfl
  | _ => exact same rfl rfl

/-- The ids at different places of a stream are different. -/
theorem Ranked.nodup {ids : List PacketId} (ranked : Ranked m ks ids) (short : m ≤ horizon) :
    ids.Nodup := by
  rw [ranked.ids]
  refine List.Nodup.map_on (fun j jMem k kMem same => ?_) (ranked.order.imp Nat.ne_of_lt)
  have := ranked.bound j jMem
  have := ranked.bound k kMem
  exact (nth_inj (by omega) (by omega)).mp same

theorem Numbered.early (numbered : Numbered total m ks s) (mem : id ∈ s.unackedIds) :
    ∃ k < m, id = nth k := by
  rw [numbered.unacked.ids] at mem
  obtain ⟨k, there, rfl⟩ := List.mem_map.mp mem
  exact ⟨k, numbered.unacked.bound k there, rfl⟩

/-- The id of the next packet is new. -/
theorem Numbered.ne_nextId (numbered : Numbered total m ks s) (few : total ≤ horizon)
    (old : ∃ k < m, id = nth k) : id ≠ s.nextId := by
  obtain ⟨k, before, rfl⟩ := old
  have := numbered.total
  rw [numbered.nextId]
  intro same
  have := (nth_inj (by omega) (by omega)).mp same
  omega

/-- What a sender that does not start over has sent so far, with the ids that were acknowledged after
one transmission. -/
structure Chronicle (clock : Clock) (total m : Nat) (ks : List Nat) (settled : List PacketId)
    (sent : List (Nat × Packet)) (s : Sender) : Prop where
  numbered : Numbered total m ks s
  known : ∀ x ∈ sent, x.2.header.kind = .data → ∃ k < m, x.2.header.id = nth k
  once : ∀ entry ∈ s.unacked.entries, entry.attempts = 0 → SentOnce clock entry.id sent
  done : ∀ id ∈ settled, (∃ k < m, id = nth k) ∧ id ∉ s.unackedIds ∧ SentOnce clock id sent

theorem chronicle_nil (numbered : Numbered 0 0 [] s) (empty : s.unacked.entries = []) :
    Chronicle clock 0 0 [] [] [] s := by
  refine ⟨numbered, nofun, ?_, nofun⟩
  rw [empty]
  nofun

namespace Chronicle

/-- Nothing comes into the send queue, and what is sent of it again is not taken for new. -/
theorem rest (chronicle : Chronicle clock total m ks settled sent s)
    (numbered : Numbered total' m ks' s') (fewer : ∀ id ∈ s'.unackedIds, id ∈ s.unackedIds)
    (again : ∀ x ∈ more, x.2.header.kind = .data → x.2.header.id ∈ s.unackedIds)
    (untouched : ∀ entry ∈ s'.unacked.entries, entry.attempts = 0 → entry ∈ s.unacked.entries ∧
      ∀ x ∈ more, x.2.header.kind = .data → x.2.header.id ≠ entry.id) :
    Chronicle clock total' m ks' settled (sent ++ more) s' := by
  refine ⟨numbered, fun x mem data => ?_, fun entry mem first => ?_, fun id mem => ?_⟩
  · rcases List.mem_append.mp mem with old | new
    · exact chronicle.known x old data
    · exact chronicle.numbered.early (again x new data)
  · obtain ⟨old, other⟩ := untouched entry mem first
    exact (chronicle.once entry old first).append other
  · obtain ⟨known, gone, once⟩ := chronicle.done id mem
    refine ⟨known, fun held => gone (fewer id held), once.append fun x new data same => gone ?_⟩
    rw [← same]
    exact again x new data

/-- A packet is sent for the first time. -/
theorem post (chronicle : Chronicle clock total m ks settled sent s) (few : total ≤ horizon)
    (numbered : Numbered total' (m + 1) ks' s')
    (ids : ∀ id ∈ s'.unackedIds, id ∈ s.unackedIds ∨ id = s.nextId)
    (untouched : ∀ entry ∈ s'.unacked.entries, entry.attempts = 0 → entry.id ≠ s.nextId →
      entry ∈ s.unacked.entries)
    (data : p.header.kind = .data) (id : p.header.id = s.nextId)
    (stamp : p.header.timestamp = clock.timestamp now) :
    Chronicle clock total' (m + 1) ks' settled (sent ++ [(now, p)]) s' := by
  have new {i : PacketId} (old : ∃ k < m, i = nth k) : i ≠ s.nextId :=
    chronicle.numbered.ne_nextId few old
  have other {i : PacketId} (old : i ≠ s.nextId) :
      ∀ x ∈ [(now, p)], x.2.header.kind = .data → x.2.header.id ≠ i := by
    intro x mem _
    rw [List.mem_singleton.mp mem, id]
    exact old.symm
  refine ⟨numbered, fun x mem kind => ?_, fun entry mem first => ?_, fun i mem => ?_⟩
  · rcases List.mem_append.mp mem with old | latest
    · obtain ⟨k, before, place⟩ := chronicle.known x old kind
      exact ⟨k, by omega, place⟩
    · rw [List.mem_singleton.mp latest, id, chronicle.numbered.nextId]
      exact ⟨m, by omega, rfl⟩
  · by_cases latest : entry.id = s.nextId
    · have none : copies entry.id sent = [] := copies_eq_nil fun x old kind same =>
        new (chronicle.known x old kind) (same.trans latest)
      refine ⟨now, p, ?_, stamp⟩
      rw [copies_append, none]
      simp [copies, data, id, latest]
    · exact (chronicle.once entry (untouched entry mem first latest) first).append (other latest)
  · obtain ⟨known, gone, once⟩ := chronicle.done i mem
    refine ⟨?_, fun held => ?_, once.append (other (new known))⟩
    · obtain ⟨k, before, place⟩ := known
      exact ⟨k, by omega, place⟩
    · exact (ids i held).elim gone (new known)

/-- An acknowledgement takes a packet out of the send queue that was sent once. -/
theorem settle (chronicle : Chronicle clock total m ks settled sent s) (few : total ≤ horizon)
    {entry : SendQueue.Entry} {unacked : SendQueue}
    (found : s.unacked.remove? id = some (entry, unacked)) (first : entry.attempts = 0) :
    ∃ ks', Chronicle clock total m ks' (settled ++ [id]) sent { s with unacked := unacked } := by
  have ranked := chronicle.numbered.unacked
  have sum := chronicle.numbered.total
  obtain ⟨mem, rfl, entries⟩ := SendQueue.of_remove? found
  have erased : Sender.unackedIds { s with unacked := unacked } =
      s.unackedIds.eraseP (· == entry.id) := by
    rw [Sender.unackedIds, Sender.unackedIds, List.eraseP_map]
    exact congrArg _ (SendQueue.contents_remove? found)
  have fewer : Chronicle clock total m _ settled (sent ++ []) { s with unacked := unacked } :=
    chronicle.rest ⟨chronicle.numbered.nextId, sum, erased ▸ ranked.eraseP entry.id⟩
      (fun i held => List.mem_of_mem_eraseP (erased ▸ held)) (List.forall_mem_nil _)
      fun x held _ => ⟨List.mem_of_mem_eraseP (entries ▸ held), List.forall_mem_nil _⟩
  rw [List.append_nil] at fewer
  refine ⟨_, { fewer with done := fun i settled => ?_ }⟩
  rcases List.mem_append.mp settled with old | new
  · exact fewer.done i old
  · obtain rfl := List.mem_singleton.mp new
    have held : entry.id ∈ s.unackedIds :=
      List.mem_map_of_mem (List.mem_map_of_mem (f := fun e => (e.id, e.packet)) mem)
    refine ⟨chronicle.numbered.early held, fun left => ?_, chronicle.once entry mem first⟩
    rw [fewer.numbered.unacked.ids] at left
    obtain ⟨k, there, same⟩ := List.mem_map.mp left
    exact ranked.gone (by omega) there same

end Chronicle

/-- A move that does not make the sender start over. -/
theorem Move.chronicle (move : Move ctx op c log ws c') (sound : c.Sound) (asked : op.Sound c.key)
    (labelled : c.Labelled) (quiet : ∀ y ∈ log, y.isReset = false)
    (few : total + ws.length ≤ horizon)
    (chronicle : Chronicle ctx.clock total m ks settled sent c.sender) :
    ∃ m' ks', Chronicle ctx.clock (total + ws.length) m' ks' settled
      (sent ++ timed ctx.now (packets log)) c'.sender := by
  have outward := move.outward sound asked
  have numbered := chronicle.numbered
  have sum := numbered.total
  obtain ⟨m', ks', numbered'⟩ := outward.numbered quiet numbered
  have sum' := numbered'.total
  have untouched (entry : SendQueue.Entry) (held : entry ∈ c'.sender.unacked.entries)
      (first : entry.attempts = 0) (old : entry.id ≠ c.sender.nextId) :
      entry ∈ c.sender.unacked.entries ∧
        ∀ x ∈ timed ctx.now (packets log), x.2.header.kind = .data → x.2.header.id ≠ entry.id := by
    obtain ⟨here, mute⟩ := move.untouched labelled (numbered.unacked.nodup (by omega)) held first old
    refine ⟨here, fun x mem data same => mute ?_⟩
    rw [← same]
    exact mem_sentIds (mem_timed mem).2 data
  have still (parked : c'.sender.parked.length = c.sender.parked.length + ws.length)
      (fewer : ∀ id ∈ c'.sender.unackedIds, id ∈ c.sender.unackedIds)
      (again : ∀ p ∈ packets log, p.header.kind = .data →
        ∃ id, (id, p.encode) ∈ c.sender.unacked.contents) :
      ∃ m' ks', Chronicle ctx.clock (total + ws.length) m' ks' settled
        (sent ++ timed ctx.now (packets log)) c'.sender := by
    obtain rfl : m' = m := by omega
    refine ⟨m', ks', chronicle.rest numbered' fewer (fun x mem data => ?_) fun entry held first => ?_⟩
    · obtain ⟨id, held⟩ := again x.2 (mem_timed mem).2 data
      have label := labelled.unacked _ held
      rw [Packet.label?_encode] at label
      rw [(Prod.mk.inj (Option.some.inj label)).2]
      exact List.mem_map_of_mem held
    · have old : entry.id ∈ c'.sender.unackedIds :=
        List.mem_map_of_mem (List.mem_map_of_mem held)
      exact untouched entry held first
        (numbered.ne_nextId (by omega) (numbered.early (fewer _ old)))
  cases outward with
  | rest nextId contents parked _ again =>
    refine still (by rw [parked]; rfl) (fun id held => ?_) again
    rwa [Sender.unackedIds, contents] at held
  | park nextId contents parked silent =>
    subst silent
    refine still (by rw [parked, List.length_append]) (fun id held => ?_) (List.forall_mem_nil _)
    rwa [Sender.unackedIds, contents] at held
  | settle _ _ nextId contents parked silent =>
    subst silent
    refine still (by rw [parked]; rfl) (fun id held => ?_) (List.forall_mem_nil _)
    rw [Sender.unackedIds, contents] at held
    exact (List.eraseP_sublist.map _).subset held
  | send first _ packet _ nextId contents all =>
    rw [first, List.length_cons] at sum
    rw [List.length_nil] at sum'
    obtain rfl : m' = m + 1 := by omega
    rw [all]
    refine ⟨_, _, chronicle.post (by omega) numbered' (fun id held => ?_)
      (fun entry held fresh old => (untouched entry held fresh old).1)
      (by rw [packet]; rfl) (by rw [packet]; rfl) (by rw [packet]; rfl)⟩
    rw [Sender.unackedIds, contents, List.map_append] at held
    exact (List.mem_append.mp held).imp_right List.mem_singleton.mp
  | startOver _ _ _ _ _ tells =>
    have reset := quiet (.emit (.resetLocal c.key)) (by rw [tells]; exact List.mem_cons_self)
    cases reset

theorem Moves.chronicle (moves : Moves ctx op c log ws c') (sound : c.Sound)
    (asked : op.Sound c.key) (labelled : c.Labelled) (quiet : ∀ y ∈ log, y.isReset = false)
    (few : total + ws.length ≤ horizon)
    (chronicle : Chronicle ctx.clock total m ks settled sent c.sender) :
    ∃ m' ks', Chronicle ctx.clock (total + ws.length) m' ks' settled
      (sent ++ timed ctx.now (packets log)) c'.sender := by
  induction moves with
  | none => exact ⟨m, ks, by simpa [timed] using chronicle⟩
  | @snoc log log' ws ws' d d' before last ih =>
    obtain ⟨quiet, quiet'⟩ := List.forall_mem_append.mp quiet
    rw [List.length_append, ← Nat.add_assoc] at few
    obtain ⟨m', ks', chronicle⟩ := ih quiet (by omega)
    rw [packets_append, timed_append, ← List.append_assoc, List.length_append, ← Nat.add_assoc]
    exact last.chronicle (before.sound sound asked) (by rwa [before.key])
      (before.labelled labelled) quiet' few chronicle

end Moves

end ReliableDatagram.Channel
