import ReliableDatagram.Proofs.Channel.Stamps
import ReliableDatagram.Proofs.Channel.StreamMoves
import ReliableDatagram.Proofs.Link.History

/-!
# What one end sends

The data packets that an end sends for the first time are streams, one after the other. The last one
is open; it grows until the sender starts over, the channel is destroyed or the table restarted. All
streams together carry the writes in order, some of which may be lost between two streams.
-/

namespace ReliableDatagram.Link

open Channel PacketId

variable {n : UInt8} {v w : Conversation} {e x : End}
variable {past : List (List Packet)} {st : List Packet} {written : List Bytes}
variable {ctx : Context} {op : Channel.Op} {c c' : Channel} {log : List Effect}
variable {ws : List ParkedWrite}

/-- The new packets continue the last stream or make up further ones. -/
structure Grows (streams : List (List Packet)) (new : List Packet)
    (streams' : List (List Packet)) : Prop where
  keeps : ∀ before σ after, streams = before ++ σ :: after →
    ∃ more after', streams' = before ++ (σ ++ more) :: after'
  flatten : streams'.flatten = streams.flatten ++ new

namespace Grows

variable {streams streams' streams'' : List (List Packet)} {new new' : List Packet}

theorem refl (streams : List (List Packet)) : Grows streams [] streams := by
  constructor
  · intro before σ after same
    exact ⟨[], after, by rwa [List.append_nil]⟩
  · rw [List.append_nil]

theorem trans (first : Grows streams new streams') (second : Grows streams' new' streams'') :
    Grows streams (new ++ new') streams'' := by
  constructor
  · intro before σ after same
    obtain ⟨more, after', same'⟩ := first.keeps before σ after same
    obtain ⟨more', after'', same''⟩ := second.keeps before _ after' same'
    exact ⟨more ++ more', after'', by rw [same'', List.append_assoc]⟩
  · rw [second.flatten, first.flatten, List.append_assoc]

/-- The open stream goes on. -/
theorem extend (past : List (List Packet)) (st new : List Packet) :
    Grows (past ++ [st]) new (past ++ [st ++ new]) := by
  constructor
  · intro before σ after same
    rcases List.eq_nil_or_concat after with rfl | ⟨between, last, rfl⟩
    · obtain ⟨rfl, last⟩ := List.append_inj' same rfl
      obtain rfl := List.singleton_inj.mp last
      exact ⟨new, [], rfl⟩
    · rw [List.concat_eq_append, ← List.cons_append, ← List.append_assoc] at same
      obtain ⟨rfl, _⟩ := List.append_inj' same rfl
      refine ⟨[], between ++ [st ++ new], ?_⟩
      rw [List.append_nil, List.append_assoc, List.cons_append]
  · simp

/-- The open stream comes to its end. -/
theorem finish (streams : List (List Packet)) : Grows streams [] (streams ++ [[]]) := by
  constructor
  · intro before σ after same
    refine ⟨[], after ++ [[]], ?_⟩
    rw [same, List.append_nil, List.append_assoc, List.cons_append]
  · simp

end Grows

/-- The streams that the end `e` sent are these, the open one last, and the packets and parked
writes carry what was written in order. -/
structure Writes (n : UInt8) (v : Conversation) (e : End) (past : List (List Packet))
    (st : List Packet) (written : List Bytes) : Prop where
  streams : ∀ σ ∈ past ++ [st], Stream n σ
  sends : Sends st (v.sender e)
  data : ∀ p ∈ v.air e, p.header.kind = .data → p ∈ (past ++ [st]).flatten
  carries : (contentsOf (past ++ [st]).flatten ++ parkedBytes (v.sender e)).Sublist written

namespace Writes

theorem silent (n : UInt8) {v : Conversation} {e : End} (channel : v.channel? e = none)
    (air : v.air e = []) : Writes n v e [] [] [] := by
  have sender : v.sender e = { unacked := { limit := 0 } } := by
    simp only [Conversation.sender, channel]
  constructor
  · intro σ mem
    rcases List.mem_singleton.mp mem with rfl
    exact .nil n
  · rw [sender]
    exact ⟨rfl, fun _ held => (List.not_mem_nil held).elim⟩
  · rw [air]
    exact fun _ mem => (List.not_mem_nil mem).elim
  · rw [sender]
    exact .refl _

theorem alike (writes : Writes n w e past st written) (alike : v.Alike w) :
    Writes n v e past st written := by
  obtain ⟨streams, sends, data, carries⟩ := writes
  refine ⟨streams, sends.of_same (alike.nextId e) (by simp [alike.contents]),
    fun p mem => data p (alike.air e p mem), ?_⟩
  rwa [parkedBytes, alike.parked]

/-- The other end's turns are no concern of the writer. -/
theorem other (writes : Writes n v e past st written) (c? : Option Channel) (sent : List Packet) :
    Writes n (v.turn e.other c? sent) e past st written := by
  have sender := Conversation.sender_turn_other v e.other c? sent
  have air := Conversation.turn_air_other v e.other c? sent
  rw [End.other_other] at sender air
  constructor
  · exact writes.streams
  · rw [sender]
    exact writes.sends
  · rw [air]
    exact writes.data
  · rw [sender]
    exact writes.carries

/-- A sender that starts over begins another stream, and may lose writes that were parked. -/
theorem finish (writes : Writes n v e past st written) (sends : Sends [] (w.sender e))
    (air : ∀ p ∈ w.air e, p ∈ v.air e)
    (parked : (parkedBytes (w.sender e)).Sublist (parkedBytes (v.sender e))) :
    Writes n w e (past ++ [st]) [] written := by
  have flatten : (past ++ [st] ++ [[]]).flatten = (past ++ [st]).flatten := by simp
  constructor
  · intro σ mem
    rcases List.mem_append.mp mem with old | new
    · exact writes.streams σ old
    · rcases List.mem_singleton.mp new with rfl
      exact .nil n
  · exact sends
  · rw [flatten]
    exact fun p mem => writes.data p (air p mem)
  · rw [flatten]
    exact .trans ((List.Sublist.refl _).append parked) writes.carries

/-- Without its channel, the end begins again. -/
theorem leave (writes : Writes n v e past st written) :
    Writes n (v.turn e none []) e (past ++ [st]) [] written := by
  have sender : (v.turn e none []).sender e = { unacked := { limit := 0 } } := by
    simp only [Conversation.sender, Conversation.turn_channel?_self]
  refine writes.finish ?_ (by simp) ?_
  · rw [sender]
    exact ⟨rfl, fun _ held => (List.not_mem_nil held).elim⟩
  · rw [sender]
    exact List.nil_sublist _

end Writes

/-- A move of the writer. -/
theorem Writes.move (writes : Writes n v e past st written) (had : v.channel? e = some c)
    (sound : c.Sound) (known : op.Sound c.key) (own : c.key.channel = n)
    (move : Move ctx op c log ws c') :
    ∃ past' st', Writes n (v.turn e (some c') (packets log)) e past' st'
        (written ++ ws.map (·.payload)) ∧
      Grows (past ++ [st]) (launched log) (past' ++ [st']) ∧
      ∀ p ∈ launched log, p.header.timestamp = ctx.timestamp := by
  have open_ := writes.streams st (by simp)
  have sends := writes.sends
  have carries := writes.carries
  rw [Conversation.sender_of_some had] at sends carries
  obtain moved | again := (move.outward sound known).stream open_ sends own
  · refine ⟨past, st ++ launched log, ?_, .extend past st _, moved.stamped⟩
    have flatten : (past ++ [st ++ launched log]).flatten =
        (past ++ [st]).flatten ++ launched log := (Grows.extend past st _).flatten
    constructor
    · intro σ mem
      rcases List.mem_append.mp mem with old | new
      · exact writes.streams σ (List.mem_append_left _ old)
      · rcases List.mem_singleton.mp new with rfl
        exact moved.stream
    · rw [Conversation.sender_turn_self]
      exact moved.sends
    · rw [Conversation.turn_air_self, flatten]
      intro p mem kind
      rcases List.mem_append.mp mem with old | new
      · exact List.mem_append_left _ (writes.data p old kind)
      · rw [← flatten, List.flatten_append]
        refine List.mem_append_right _ ?_
        rw [List.flatten_singleton]
        exact moved.own p new kind
    · rw [Conversation.sender_turn_self, flatten, contentsOf_append, List.append_assoc,
        moved.writes, ← List.append_assoc]
      exact carries.append (.refl _)
  · have none : launched log = [] := by rw [again.tells]; rfl
    have quiet : packets log = [] := by rw [again.tells]; rfl
    rw [none, quiet, again.accepts, List.map_nil, List.append_nil]
    refine ⟨past ++ [st], [], ?_, .finish _, fun p mem => (List.not_mem_nil mem).elim⟩
    refine writes.finish ?_ (by simp) ?_
    · rw [Conversation.sender_turn_self]
      exact again.sends
    · have same : parkedBytes c'.sender = parkedBytes c.sender := by
        unfold parkedBytes
        rw [again.parked]
      rw [Conversation.sender_turn_self, Conversation.sender_of_some had]
      exact same ▸ .refl _

/-- A chain of moves of the writer. -/
theorem Writes.moves (writes : Writes n v e past st written) (had : v.channel? e = some c)
    (sound : c.Sound) (known : op.Sound c.key) (own : c.key.channel = n)
    (moves : Moves ctx op c log ws c') :
    ∃ past' st', Writes n (v.turn e (some c') (packets log)) e past' st'
        (written ++ ws.map (·.payload)) ∧
      Grows (past ++ [st]) (launched log) (past' ++ [st']) ∧
      ∀ p ∈ launched log, p.header.timestamp = ctx.timestamp := by
  induction moves with
  | none =>
    have same := v.turn_self e
    rw [had] at same
    rw [List.map_nil, List.append_nil, packets_nil, same]
    exact ⟨past, st, writes, .refl _, fun p mem => (List.not_mem_nil mem).elim⟩
  | @snoc log log' ws ws' d d' before last ih =>
    obtain ⟨past', st', writes', grows, stamped⟩ := ih
    have key := before.key
    obtain ⟨past'', st'', writes'', grows', stamped'⟩ :=
      writes'.move (Conversation.turn_channel?_self v e _ _) (before.sound sound known)
        (by rwa [key]) (by rwa [key]) last
    rw [Conversation.turn_turn, List.append_assoc, ← List.map_append, ← packets_append] at writes''
    rw [launched_append]
    refine ⟨past'', st'', writes'', grows.trans grows', fun p mem => ?_⟩
    rcases List.mem_append.mp mem with old | new
    · exact stamped p old
    · exact stamped' p new

variable {l : Link} {operation : Op} {low start : Nat} {ps : List Packet}

theorem launched_voice {key : Key} (speaks : ∀ y ∈ log, y.Speaks key) (own : key.channel = n) :
    launched (voice n log) = launched log :=
  congrArg (List.filter _) (filterMap_voice (fun _ _ => rfl) speaks own)

/-- What an operation of the link adds to the streams. -/
theorem Writes.apply (writes : Writes n (l.conversation n) e past st written) (sound : l.Sound)
    (known : operation.Sound) :
    ∃ past' st', Writes n ((l.apply operation).value.conversation n) e past' st'
        (written ++ l.accepts e n operation) ∧
      Grows (past ++ [st]) (sent e n (l.apply operation).log) (past' ++ [st']) ∧
      ∀ p ∈ sent e n (l.apply operation).log,
        p.header.timestamp = (l.clock e).timestamp l.now := by
  have still (view : Writes n ((l.apply operation).value.conversation n) e past st written)
      (silent : said e n (l.apply operation).log = []) (accepts : l.accepts e n operation = []) :
      ∃ past' st', Writes n ((l.apply operation).value.conversation n) e past' st'
          (written ++ l.accepts e n operation) ∧
        Grows (past ++ [st]) (sent e n (l.apply operation).log) (past' ++ [st']) ∧
        ∀ p ∈ sent e n (l.apply operation).log,
          p.header.timestamp = (l.clock e).timestamp l.now := by
    rw [sent, silent, accepts, List.append_nil]
    exact ⟨past, st, view, .refl _, fun p mem => (List.not_mem_nil mem).elim⟩
  cases episode sound known n with
  | still view silent accepts => exact still (writes.alike view.alike) (silent e) (accepts e)
  | @act x asked c c' log ws offered heard own knownOp _ moves view speech accepts =>
    by_cases here : x = e
    · subst here
      have key := offered.key_eq
      have begun := writes.alike (Conversation.alike_offer rfl offered)
      obtain ⟨past', st', writes', grows, stamped⟩ :=
        begun.moves (Conversation.turn_channel?_self _ x _ _) own (by rwa [key])
          (by rw [key]; rfl) moves
      rw [Conversation.turn_turn] at writes'
      have launches : sent x n (l.apply operation).log = launched log := by
        rw [sent, speech, if_pos rfl]
        exact launched_voice (moves.speaks own (by rwa [key])) (by rw [key]; rfl)
      rw [launches, accepts, if_pos rfl]
      exact ⟨past', st', writes'.alike view.alike, grows, stamped⟩
    · obtain rfl : x = e.other := End.eq_other here
      refine still ((writes.other _ _).alike view.alike) ?_ ?_
      · rw [speech, if_neg fun same => here same.symm]
      · rw [accepts, if_neg fun same => here same.symm]
  | @leave x c c' log reason found own moves view speech accepts =>
    by_cases here : x = e
    · subst here
      have key : c.key.channel = n := by rw [(Table.mem_of_find? found).2]; rfl
      obtain ⟨past', st', writes', grows, stamped⟩ := writes.moves found own (by trivial) key moves
      rw [List.map_nil, List.append_nil] at writes'
      have left := writes'.leave
      rw [Conversation.turn_turn, List.append_nil] at left
      have launches : sent x n (l.apply operation).log = launched log := by
        rw [sent, speech, if_pos rfl, voice_append, launched_append,
          launched_voice (moves.speaks own trivial) key,
          launched_voice (Table.speaks_destroy c' reason) (by rw [moves.key, key]),
          launched_destroy, List.append_nil]
      have grows' := grows.trans (.finish _)
      rw [List.append_nil] at grows'
      rw [launches, accepts, List.append_nil]
      exact ⟨_, _, left.alike view.alike, grows', stamped⟩
    · obtain rfl : x = e.other := End.eq_other here
      refine still ((writes.other _ _).alike view.alike) ?_ (accepts e)
      rw [speech, if_neg fun same => here same.symm]
  | @forget x base restart view silent accepts =>
    by_cases here : x = e
    · subst here
      rw [sent, silent, accepts, List.append_nil]
      exact ⟨_, _, writes.leave.alike view.alike, .finish _, fun p mem =>
        (List.not_mem_nil mem).elim⟩
    · obtain rfl : x = e.other := End.eq_other here
      exact still ((writes.other _ _).alike view.alike) (silent e) (accepts e)

theorem Writes.run (writes : Writes n (l.conversation n) e past st written) (sound : l.Sound)
    {ops : List Op} (known : ∀ op ∈ ops, op.Sound) :
    ∃ past' st', Writes n ((Link.run ops l).value.conversation n) e past' st'
        (written ++ accepted e n ops l) ∧
      (past' ++ [st']).flatten = (past ++ [st]).flatten ++ sent e n (Link.run ops l).log := by
  induction ops generalizing l past st written with
  | nil =>
    refine ⟨past, st, ?_, (List.append_nil _).symm⟩
    rw [accepted, List.append_nil]
    exact writes
  | cons op ops ih =>
    have first := known op List.mem_cons_self
    obtain ⟨past', st', writes', grows, _⟩ := writes.apply sound first
    obtain ⟨past'', st'', writes'', flatten⟩ := ih writes' (sound.apply first)
      fun op mem => known op (List.mem_cons_of_mem _ mem)
    refine ⟨past'', st'', ?_, ?_⟩
    · rw [accepted, ← List.append_assoc]
      exact writes''
    · rw [flatten, grows.flatten, log_run_cons, sent_append, List.append_assoc]

/-- Whatever data an operation brings was sent before. -/
theorem Writes.brings (writes : Writes n (l.conversation n) e past st written) (sound : l.Sound)
    (known : operation.Sound) :
    ∀ p ∈ l.brings e.other n operation, p ∈ (past ++ [st]).flatten := by
  intro p brought
  cases episode sound known n with
  | @act x asked c c' log ws offered heard _ _ _ _ _ _ _ brings =>
    rw [brings] at brought
    split at brought
    · next here =>
      obtain ⟨rfl, kind⟩ := Channel.Op.mem_data.mp brought
      have flies := heard p rfl
      rw [← here, End.other_other] at flies
      exact writes.data p flies kind
    · cases brought
  | still _ _ _ brings | leave _ _ _ _ _ _ brings | forget _ _ _ _ brings =>
    rw [brings] at brought
    cases brought

theorem Writes.arrivals (writes : Writes n (l.conversation n) e past st written) (sound : l.Sound)
    {ops : List Op} (known : ∀ op ∈ ops, op.Sound) :
    ∀ p ∈ Link.arrivals e.other n ops l,
      p ∈ (past ++ [st]).flatten ++ sent e n (Link.run ops l).log := by
  induction ops generalizing l past st written with
  | nil => nofun
  | cons op ops ih =>
    intro p arrived
    have first := known op List.mem_cons_self
    rcases List.mem_append.mp arrived with here | later
    · exact List.mem_append_left _ (writes.brings sound first p here)
    · obtain ⟨past', st', writes', grows, _⟩ := writes.apply sound first
      have sends := ih writes' (sound.apply first)
        (fun op mem => known op (List.mem_cons_of_mem _ mem)) p later
      rwa [grows.flatten, List.append_assoc, ← sent_append, ← log_run_cons] at sends

/-- The clock of the end `e` shows at least `low`, it did not go faster than time since the start,
and it stamped these packets. -/
def Dated (l : Link) (e : End) (low start : Nat) (ps : List Packet) : Prop :=
  ∃ base, (l.clock e).Ticks low start l.now base ∧ low ≤ (l.clock e).mark base l.now ∧
    Stamped low ((l.clock e).mark base l.now) ps

theorem dated_start (l : Link) (e : End) : Dated l e ((l.clock e).reading l.now) l.now [] :=
  ⟨_, (l.clock e).ticks_start l.now, Nat.le_refl _, .nil _ _⟩

theorem Dated.apply (dated : Dated l e low start ps) (order : start ≤ l.now)
    (continues : operation.Continues l e) {more : List Packet}
    (latest : ∀ p ∈ more, p.header.timestamp = (l.clock e).timestamp l.now) :
    Dated (l.apply operation).value e low start (ps ++ more) := by
  obtain ⟨base, ticks, above, stamped⟩ := dated
  have stamped' : Stamped low ((l.clock e).mark base l.now) (ps ++ more) :=
    stamped.append above fun p mem => (latest p mem).trans (ticks.timestamp l.now)
  rcases clock_of_continues continues with same | ⟨same, now⟩
  · have passes := now_apply_le l operation
    have later := (l.clock e).mark_mono base passes
    rw [← same] at ticks above stamped' later
    exact ⟨base, ticks.later passes, Nat.le_trans above later, stamped'.later later⟩
  · have mark : (⟨l.now, (l.clock e).timestamp l.now⟩ : Clock).mark
        ((l.clock e).mark base l.now) l.now = (l.clock e).mark base l.now := by
      rw [Clock.mark, Nat.sub_self, Nat.zero_div, Nat.add_zero]
    unfold Dated
    rw [same, now]
    refine ⟨_, ticks.restart order, ?_, ?_⟩
    · rwa [mark]
    · rwa [mark]

/-- The timestamps tell the streams apart while less than half the range has passed. -/
theorem Dated.inTime (dated : Dated l e low start ps)
    (near : l.now < start + (stampRange - 1) * millisecond) (apart : StartsApart ps) :
    InTime ps := by
  obtain ⟨base, ticks, _, stamped⟩ := dated
  refine stamped.inTime ?_ apart
  have slow := ticks.slow l.now (Nat.le_refl _)
  simp only [stampRange, millisecond] at near slow ⊢
  omega

end ReliableDatagram.Link
