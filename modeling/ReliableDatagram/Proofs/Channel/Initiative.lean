import ReliableDatagram.Proofs.Channel.Answers

/-!
# What a channel does unasked

Without a packet from its peer a channel leaves its receive direction alone and answers nothing. All
that it can say about the peer's stream is one more copy of a request to start over.
-/

namespace ReliableDatagram.Channel

/-- The packets that concern the stream of the end that sends them. -/
def forth (ps : List Packet) : List Packet :=
  ps.filter fun p => p.header.kind == .data || p.header.kind == .ackReset

/-- The packets that concern the stream of the end that they are sent to. -/
def back (ps : List Packet) : List Packet :=
  ps.filter fun p => p.header.kind == .ack || p.header.kind == .reset

variable {ps qs : List Packet} {p : Packet}
variable {ctx : Context} {op : Op} {c c' : Channel} {log : List Effect} {ws : List ParkedWrite}

@[simp] theorem forth_nil : forth [] = [] := rfl

@[simp] theorem back_nil : back [] = [] := rfl

@[simp] theorem forth_append : forth (ps ++ qs) = forth ps ++ forth qs := List.filter_append _ _

@[simp] theorem back_append : back (ps ++ qs) = back ps ++ back qs := List.filter_append _ _

theorem mem_forth :
    p ∈ forth ps ↔ p ∈ ps ∧ (p.header.kind = .data ∨ p.header.kind = .ackReset) := by
  simp [forth, List.mem_filter]

theorem mem_back : p ∈ back ps ↔ p ∈ ps ∧ (p.header.kind = .ack ∨ p.header.kind = .reset) := by
  simp [back, List.mem_filter]

theorem forth_cons (concerns : p.header.kind = .data ∨ p.header.kind = .ackReset) :
    forth (p :: ps) = p :: forth ps :=
  List.filter_cons_of_pos (by simpa using concerns)

theorem forth_cons_of_not (other : ¬(p.header.kind = .data ∨ p.header.kind = .ackReset)) :
    forth (p :: ps) = forth ps :=
  List.filter_cons_of_neg (by simpa using other)

theorem back_cons (concerns : p.header.kind = .ack ∨ p.header.kind = .reset) :
    back (p :: ps) = p :: back ps :=
  List.filter_cons_of_pos (by simpa using concerns)

theorem back_cons_of_not (other : ¬(p.header.kind = .ack ∨ p.header.kind = .reset)) :
    back (p :: ps) = back ps :=
  List.filter_cons_of_neg (by simpa using other)

theorem of_forth_nil (silent : forth (p :: ps) = []) :
    ¬(p.header.kind = .data ∨ p.header.kind = .ackReset) ∧ forth ps = [] := by
  by_cases concerns : p.header.kind = .data ∨ p.header.kind = .ackReset
  · rw [forth_cons concerns] at silent
    cases silent
  · rw [forth_cons_of_not concerns] at silent
    exact ⟨concerns, silent⟩

theorem of_back_nil (silent : back (p :: ps) = []) :
    ¬(p.header.kind = .ack ∨ p.header.kind = .reset) ∧ back ps = [] := by
  by_cases concerns : p.header.kind = .ack ∨ p.header.kind = .reset
  · rw [back_cons concerns] at silent
    cases silent
  · rw [back_cons_of_not concerns] at silent
    exact ⟨concerns, silent⟩

theorem back_eq_nil (silent : ∀ q ∈ ps, q.header.kind ≠ .ack ∧ q.header.kind ≠ .reset) :
    back ps = [] := by
  refine List.eq_nil_iff_forall_not_mem.mpr fun q mem => ?_
  obtain ⟨there, kind⟩ := mem_back.mp mem
  exact kind.elim (silent q there).1 (silent q there).2

theorem forth_of_data (data : ∀ q ∈ ps, q.header.kind = .data) : forth ps = ps :=
  List.filter_eq_self.mpr fun q mem => by simp [data q mem]

/-- What becomes of the receive direction without a packet. -/
structure Unasked (op : Op) (c : Channel) (log : List Effect) (c' : Channel) : Prop where
  expected : c'.receiver.expected = c.receiver.expected
  pending : c'.receiver.pendingReset.isSome = c.receiver.pendingReset.isSome
  silent : payloads log = []
  speech : ∀ q ∈ packets log, q.header.kind ≠ .ack ∧ q.header.kind ≠ .ackReset ∧
    (q.header.kind = .reset → op = .tick ∧ c.receiver.pendingReset.isSome = true)

theorem Move.unasked (move : Move ctx op c log ws c') (own : ∀ q, op ≠ .packet q) (sound : c.Sound)
    (known : op.Sound c.key) : Unasked op c log c' := by
  have causes {q : Packet} (sent : q ∈ packets log) := move.handshakes sound known sent
  cases move.inward sound known with
  | rest expected startedAt early pending silent noAck =>
    refine ⟨expected, pending, silent, fun q sent => ⟨noAck q sent, fun kind => ?_, fun kind => ?_⟩⟩
    · have cause := causes sent
      rw [kind] at cause
      obtain ⟨x, asked, _⟩ := cause
      exact own x asked
    · have cause := causes sent
      rw [kind] at cause
      rcases cause with again | ⟨x, asked, _⟩
      · exact again
      · exact absurd asked (own x)
  | accept asked | acceptStart asked | restart asked | confirm asked | keep asked
  | requestReset asked | resetAnswered asked => exact absurd asked (own _)

theorem Moves.unasked (moves : Moves ctx op c log ws c') (own : ∀ q, op ≠ .packet q)
    (sound : c.Sound) (known : op.Sound c.key) : Unasked op c log c' := by
  induction moves with
  | none => exact ⟨rfl, rfl, rfl, nofun⟩
  | snoc before last ih =>
    have known' := known
    rw [← before.key] at known'
    have next := last.unasked own (before.sound sound known) known'
    refine ⟨next.expected.trans ih.expected, next.pending.trans ih.pending, ?_, fun q sent => ?_⟩
    · rw [payloads_append, ih.silent, next.silent]
      rfl
    · rw [packets_append] at sent
      rcases List.mem_append.mp sent with old | new
      · exact ih.speech q old
      · have speech := next.speech q new
        rwa [ih.pending] at speech

section Tick

variable (ctx : Context) (sound : c.Sound) (deadline : Nat)
include sound

theorem back_resendData : back (packets (c.resendData ctx deadline).log) = [] := by
  refine back_eq_nil fun q sent => ?_
  obtain ⟨e, logged, packet⟩ := List.mem_filterMap.mp sent
  obtain ⟨_, _, _, x, _, kind, packet'⟩ := packet_of_mem_resendData sound logged
  obtain rfl : x = q := Option.some.inj (packet'.symm.trans packet)
  rw [kind]
  exact ⟨nofun, nofun⟩

omit sound in
theorem length_back_resendReset (c : Channel) : (back (packets (c.resendReset ctx deadline).log)).length ≤ 1 := by
  have short : (c.resendReset ctx deadline).log.length ≤ 1 := by
    unfold resendReset
    split
    · exact Nat.zero_le 1
    · split
      · exact Nat.zero_le 1
      · split
        · exact Nat.zero_le 1
        · exact Nat.le_refl 1
  calc (back (packets (c.resendReset ctx deadline).log)).length
      ≤ (packets (c.resendReset ctx deadline).log).length := List.length_filter_le _ _
    _ ≤ (c.resendReset ctx deadline).log.length := List.length_filterMap_le _ _
    _ ≤ 1 := short

theorem back_keepAlive : back (packets (c.keepAlive ctx).log) = [] := by
  unfold keepAlive
  split
  · unfold ping
    rw [Logged.log_bind, packets_append, packets_checkConnected, List.append_nil,
      packets_transmit (Packet.wellFormed_ping sound.channel_le (by decide))]
    rfl
  · rfl

theorem back_closeWindow : back (packets (c.closeWindow ctx).log) = [] := by
  unfold closeWindow
  split
  · rfl
  · next meter complete =>
    dsimp only
    split
    · refine back_eq_nil fun q sent => ?_
      have kind : q.header.kind = .data := by
        refine packets_flush ?_ ?_ sent
        · rw [tune_key]
          exact sound.channel_le
        · rw [tune_parked]
          exact sound.parked
      rw [kind]
      exact ⟨nofun, nofun⟩
    · rfl

/-- One tick asks at most once for a reset. -/
theorem length_back_tick : (back (packets (c.tick ctx).log)).length ≤ 1 := by
  unfold tick
  split
  · exact Nat.zero_le 1
  · dsimp only
    rw [Logged.log_bind, packets_append, back_append, back_resendData ctx sound, List.nil_append]
    have resend : Moves ctx .tick c _ _ _ := .one .resendData
    have resent := resend.sound sound trivial
    have timeout : (c.resendData ctx (ctx.now + c.retransmitTimeout ctx.config)).value.1.retransmitTimeout
        ctx.config = c.retransmitTimeout ctx.config := by
      simp only [retransmitTimeout, resendData_rtt]
    generalize (c.resendData ctx (ctx.now + c.retransmitTimeout ctx.config)).value = x at resent timeout ⊢
    obtain ⟨d, exhausted⟩ := x
    dsimp only at resent timeout ⊢
    split
    · exact Nat.zero_le 1
    · rw [← timeout, Logged.log_bind, packets_append, back_append]
      have once := length_back_resendReset ctx (ctx.now + d.retransmitTimeout ctx.config) d
      have ask : Moves ctx .tick d _ _ _ := .one .resendReset
      have asked := ask.sound resent trivial
      generalize d.resendReset ctx (ctx.now + d.retransmitTimeout ctx.config) = y at once asked ⊢
      obtain ⟨⟨f, exhausted⟩, log⟩ := y
      dsimp only at once asked ⊢
      split
      · rw [Logged.log_pure, packets_nil, back_nil, List.append_nil]
        exact once
      · have keep : Moves ctx .tick f _ _ _ := moves_keepAlive f
        have kept := keep.sound asked trivial
        rw [Logged.log_bind, packets_append, back_append, back_keepAlive ctx asked, Logged.log_bind,
          packets_append, back_append, back_closeWindow ctx kept, Logged.log_pure, packets_nil, back_nil]
        simpa using once

end Tick

/-- All that a channel says about its peer's stream unasked is a request to start over. -/
theorem back_unasked (exact : c.apply ctx op = ⟨c', log⟩) (unasked : Unasked op c log c')
    (sound : c.Sound) : back (packets log) = [] ∨
      c.receiver.pendingReset.isSome = true ∧
        ∃ q, back (packets log) = [q] ∧ q.header.kind = .reset := by
  have reset {q : Packet} (mem : q ∈ back (packets log)) : q.header.kind = .reset ∧ op = .tick ∧
      c.receiver.pendingReset.isSome = true := by
    obtain ⟨sent, kind⟩ := mem_back.mp mem
    have kind := kind.resolve_left (unasked.speech q sent).1
    exact ⟨kind, (unasked.speech q sent).2.2 kind⟩
  cases said : back (packets log) with
  | nil => exact .inl rfl
  | cons q qs =>
    obtain ⟨kind, ticks, pending⟩ := reset (by
      rw [said]
      exact List.mem_cons_self)
    subst ticks
    have once := length_back_tick ctx sound
    have log' : (c.tick ctx).log = log := congrArg Logged.log exact
    rw [log', said] at once
    obtain rfl : qs = [] := List.length_eq_zero_iff.mp (Nat.le_zero.mp (Nat.le_of_succ_le_succ once))
    exact .inr ⟨pending, q, rfl, kind⟩

theorem Unasked.forth (unasked : Unasked op c log c') :
    ∀ q ∈ forth (packets log), q.header.kind = .data := by
  intro q mem
  obtain ⟨sent, kind⟩ := mem_forth.mp mem
  exact kind.resolve_right (unasked.speech q sent).2.1

end ReliableDatagram.Channel
