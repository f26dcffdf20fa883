import ReliableDatagram.Proofs.Channel.Backlog
import ReliableDatagram.Proofs.Channel.StreamMoves
import ReliableDatagram.Proofs.Table.Sound

/-!
# The stream that a sender is in

A sender numbers what it launches from the last stream start on. Over a whole run, only packets of
the newest stream are unacknowledged, and the next id continues it, unless the sender has started
over and launched nothing since.
-/

namespace ReliableDatagram.Channel

open PacketId

variable {n : UInt8} {st ps : List Packet}
variable {ctx : Context} {op : Op} {c c' : Channel} {log : List Effect} {ws : List ParkedWrite}

section Runs

theorem key_apply (ctx : Context) (op : Op) (c : Channel) : (c.apply ctx op).value.key = c.key := by
  rcases apply_cases ctx op c with ⟨_, moves⟩ | ⟨reason, rfl⟩
  · exact moves.key
  · rfl

theorem Sound.apply_of_short (sound : c.Sound) (ctx : Context)
    (short : ∀ w ∈ op.writes, w.payload.length ≤ 0xffff) : (c.apply ctx op).value.Sound := by
  rcases apply_cases ctx op c with ⟨_, moves⟩ | ⟨reason, rfl⟩
  · exact moves.sound_of_short sound short
  · exact sound.mono rfl (by simp [Channel.apply, destroy]) (by simp [Channel.apply, destroy])
      (by simp [Channel.apply, destroy])

theorem Sound.apply (sound : c.Sound) (ctx : Context) (known : op.Sound c.key) :
    (c.apply ctx op).value.Sound :=
  sound.apply_of_short ctx known.write

theorem key_run (config : Config) (clock : Clock) (ops : List (Nat × Op)) (c : Channel) :
    (run config clock ops c).value.key = c.key := by
  induction ops generalizing c with
  | nil => rfl
  | cons step ops ih => exact (ih _).trans (key_apply _ _ c)

theorem Sound.run_of_short (config : Config) (clock : Clock) {ops : List (Nat × Op)}
    (sound : c.Sound) (short : ∀ step ∈ ops, ∀ w ∈ step.2.writes, w.payload.length ≤ 0xffff) :
    (Channel.run config clock ops c).value.Sound := by
  induction ops generalizing c with
  | nil => exact sound
  | cons step ops ih =>
    exact ih (sound.apply_of_short _ (short step List.mem_cons_self))
      fun later mem => short later (List.mem_cons_of_mem _ mem)

theorem Sound.run (config : Config) (clock : Clock) {ops : List (Nat × Op)} (sound : c.Sound)
    (known : ∀ step ∈ ops, step.2.Sound c.key) : (Channel.run config clock ops c).value.Sound :=
  sound.run_of_short config clock fun step mem => (known step mem).write

variable {P : List Effect → Channel → Prop}

/-- What each move keeps of the send direction and all that was logged, a chain of moves keeps. -/
theorem Moves.outward_induction (moves : Moves ctx op c log ws c') (before : List Effect)
    (sound : c.Sound) (known : op.Sound c.key)
    (step : ∀ {d d' log log' ws}, d.key = c.key → Outward ctx op d log' d' ws → P log d →
      P (log ++ log') d')
    (start : P before c) : P (before ++ log) c' := by
  induction moves with
  | none => rwa [List.append_nil]
  | snoc first last ih =>
    have outward := last.outward (first.sound sound known) (by rwa [first.key])
    rw [← List.append_assoc]
    exact step first.key outward ih

theorem run_outward_induction (before : List Effect) (config : Config) (clock : Clock)
    {ops : List (Nat × Op)} (sound : c.Sound)
    (known : ∀ step ∈ ops, step.2.Sound c.key)
    (step : ∀ {ctx now op d d' log log' ws}, (now, op) ∈ ops → d.key = c.key →
      Outward ctx op d log' d' ws → P log d → P (log ++ log') d')
    (last : ∀ {d log} reason, P log d → P (log ++ (d.destroy reason).log) (d.destroy reason).value)
    (start : P before c) :
    P (before ++ (run config clock ops c).log) (run config clock ops c).value := by
  induction ops generalizing c before with
  | nil => simpa [run] using start
  | cons first ops ih =>
    have knownFirst := known first List.mem_cons_self
    have applied : P (before ++ (c.apply ⟨first.1, config, clock⟩ first.2).log)
        (c.apply ⟨first.1, config, clock⟩ first.2).value := by
      rcases apply_cases ⟨first.1, config, clock⟩ first.2 c with ⟨_, moves⟩ | ⟨reason, same⟩
      · exact moves.outward_induction before sound knownFirst (step List.mem_cons_self) start
      · rw [same]
        exact last reason start
    have rest := ih _ (sound.apply _ knownFirst)
      (fun later mem => by rw [key_apply]; exact known later (List.mem_cons_of_mem _ mem))
      (fun mem key => step (List.mem_cons_of_mem _ mem) (key.trans (key_apply _ _ c))) applied
    simpa [run, List.append_assoc] using rest

end Runs

section InStream

/-- The sender goes on with the stream, and what is unacknowledged stands in the order of the
stream. -/
structure InStream (n : UInt8) (st : List Packet) (c : Channel) : Prop where
  stream : Stream n st
  sends : Sends st c.sender
  places : ∃ ks, Ranked st.length ks c.sender.unackedIds

theorem Sends.contents_eq_nil {s : Sender} (sends : Sends [] s) : s.unacked.contents = [] := by
  refine List.eq_nil_iff_forall_not_mem.mpr fun x held => ?_
  obtain ⟨k, p, found, _⟩ := sends.unacked x held
  cases found

/-- A sender that has started over is in a stream without packets. -/
theorem inStream_nil (n : UInt8) (sends : Sends [] c.sender) : InStream n [] c := by
  refine ⟨.nil n, sends, [], ?_⟩
  rw [Sender.unackedIds, sends.contents_eq_nil]
  exact .nil 0

theorem Outward.ranked (outward : Outward ctx op c log c' ws) {m : Nat} {ks : List Nat}
    (nextId : c.sender.nextId = nth m) (ranked : Ranked m ks c.sender.unackedIds) :
    ∃ ks', Ranked (m + (launched log).length) ks' c'.sender.unackedIds := by
  cases outward with
  | rest _ contents _ first =>
    refine ⟨ks, ?_⟩
    rwa [first, Sender.unackedIds, contents]
  | park _ contents _ silent =>
    refine ⟨ks, ?_⟩
    rwa [silent, Sender.unackedIds, contents]
  | send _ _ _ _ _ contents _ new =>
    refine ⟨ks ++ List.range' m 1, ?_⟩
    rw [new, Sender.unackedIds, contents, List.map_append, nextId]
    exact ranked.append_range 1
  | @settle p _ _ _ contents _ silent =>
    refine ⟨ks.eraseP fun k => nth k == p.header.id, ?_⟩
    rw [silent, Sender.unackedIds, contents, show (fun x : PacketId × Bytes => x.1 == p.header.id) =
      (· == p.header.id) ∘ Prod.fst from rfl, ← List.eraseP_map]
    exact ranked.eraseP p.header.id
  | startOver _ _ _ contents =>
    refine ⟨[], ?_⟩
    rw [Sender.unackedIds, contents]
    exact .nil _

theorem Outward.inStream_of_continues (outward : Outward ctx op c log c' ws)
    (inStream : InStream n st c) (continues : Continues n st ctx op c log ws c') :
    InStream n (st ++ launched log) c' := by
  obtain ⟨ks, ranked⟩ := inStream.places
  refine ⟨continues.stream, continues.sends, ?_⟩
  rw [List.length_append]
  exact outward.ranked inStream.sends.nextId ranked

theorem InStream.destroy (inStream : InStream n st c) (reason : DisconnectReason) :
    InStream n (st ++ launched (c.destroy reason).log) (c.destroy reason).value := by
  rw [launched_destroy, List.append_nil]
  refine ⟨inStream.stream, inStream.sends.of_same rfl (by simp [Channel.destroy]), [], ?_⟩
  exact .nil _

/-- Neither a request to start over nor the start of another stream of the peer. -/
def Op.Mild : Op → Prop
  | .packet p => p.header.kind ≠ .reset ∧ (p.header.kind = .data → p.header.id ≠ .streamStart)
  | _ => True

/-- A sender that has begun its stream does not return to the start of it. -/
theorem Outward.goes_on (outward : Outward ctx op c log c' ws) (mild : op.Mild)
    (begun : c.sender.nextId ≠ .streamStart) : c'.sender.nextId ≠ .streamStart := by
  cases outward with
  | rest nextId | park nextId | settle _ _ nextId =>
    rw [nextId]
    exact begun
  | send _ _ _ _ nextId =>
    rw [nextId]
    exact next_ne_streamStart _
  | startOver asked cause =>
    subst asked
    rcases cause with kind | ⟨kind, place⟩
    · exact absurd kind mild.1
    · exact absurd (Receiver.place_eq_restart place).1 (mild.2 kind)

theorem Outward.inStream (outward : Outward ctx op c log c' ws) (mild : op.Mild)
    (inStream : InStream n st c) (own : c.key.channel = n) :
    InStream n (st ++ launched log) c' := by
  rcases outward.stream inStream.stream inStream.sends own with continues | again
  · exact outward.inStream_of_continues inStream continues
  · have silent : launched log = [] := by rw [again.tells]; rfl
    rw [silent, List.append_nil]
    cases st with
    | nil => exact inStream_nil n again.sends
    | cons p st =>
      have begun : c.sender.nextId ≠ .streamStart := by
        rw [inStream.sends.nextId]
        exact nth_succ_ne _
      exact absurd again.sends.nextId (outward.goes_on mild begun)

/-- Mild operations only add to the stream. -/
theorem InStream.run (config : Config) (clock : Clock) {ops : List (Nat × Op)}
    (inStream : InStream n st c) (sound : c.Sound) (known : ∀ step ∈ ops, step.2.Sound c.key)
    (mild : ∀ step ∈ ops, step.2.Mild) (own : c.key.channel = n) :
    InStream n (st ++ launched (Channel.run config clock ops c).log)
      (Channel.run config clock ops c).value := by
  refine run_outward_induction (P := fun log d => InStream n (st ++ launched log) d) [] config clock
    sound known ?_ ?_ (by simpa using inStream)
  · intro _ _ op d d' log log' ws mem key outward inStream
    rw [launched_append, ← List.append_assoc]
    exact outward.inStream (mild _ mem) inStream (by rw [key, own])
  · intro d log reason inStream
    rw [launched_append, ← List.append_assoc]
    exact inStream.destroy reason

end InStream

section Newest

/-- The packets from the last stream start on. -/
def newestStream (ps : List Packet) : List Packet :=
  ps.foldl (fun st p => if p.header.id = .streamStart then [p] else st ++ [p]) []

theorem newestStream_snoc (ps : List Packet) (p : Packet) :
    newestStream (ps ++ [p]) =
      if p.header.id = .streamStart then [p] else newestStream ps ++ [p] := by
  simp [newestStream]

/-- The sender is in the newest stream of what was launched, or in one that has not begun. -/
def Tracks (n : UInt8) (ps : List Packet) (c : Channel) : Prop :=
  ∃ st, (st = [] ∨ st = newestStream ps) ∧ InStream n st c

theorem tracks_create (key : Key) (generation : Nat) (config : Config) (now : Nat) :
    Tracks key.channel [] (create key generation config now) :=
  ⟨[], .inl rfl, inStream_nil _ ⟨rfl, fun _ held => (List.not_mem_nil held).elim⟩⟩

theorem Outward.tracks (outward : Outward ctx op c log c' ws) (tracks : Tracks n ps c)
    (own : c.key.channel = n) : Tracks n (ps ++ launched log) c' := by
  obtain ⟨st, newest, inStream⟩ := tracks
  rcases outward.stream inStream.stream inStream.sends own with continues | again
  · refine ⟨st ++ launched log, ?_, outward.inStream_of_continues inStream continues⟩
    rcases continues.waits with silent | ⟨one, _⟩
    · simpa [silent] using newest
    · obtain ⟨p, sent⟩ := List.length_eq_one_iff.mp one
      have id : p.header.id = nth st.length := by
        refine continues.stream.id ?_
        simp [sent]
      right
      rw [sent, newestStream_snoc, id]
      rcases newest with rfl | rfl
      · rfl
      · cases begun : newestStream ps with
        | nil => rfl
        | cons q rest =>
          rw [if_neg]
          exact nth_succ_ne _
  · have silent : launched log = [] := by rw [again.tells]; rfl
    exact ⟨[], .inl rfl, inStream_nil n again.sends⟩

/-- Over a whole run, the sender stays in the newest stream. -/
theorem tracks_run (config : Config) (clock : Clock) {key : Key} (generation start : Nat)
    {ops : List (Nat × Op)} (channel_le : key.channel ≤ Packet.maxChannel)
    (known : ∀ step ∈ ops, step.2.Sound key) :
    Tracks key.channel (launched (run config clock ops (create key generation config start)).log)
      (run config clock ops (create key generation config start)).value := by
  refine run_outward_induction (P := fun log d => Tracks key.channel (launched log) d)
    [] config clock (Table.sound_create channel_le) known ?_ ?_ (tracks_create _ _ _ _)
  · intro _ _ op d d' log log' ws mem same outward tracks
    rw [launched_append]
    exact outward.tracks tracks (by rw [same]; rfl)
  · intro d log reason ⟨st, newest, inStream⟩
    have gone := inStream.destroy reason
    rw [launched_destroy, List.append_nil] at gone
    rw [launched_append, launched_destroy, List.append_nil]
    exact ⟨st, newest, gone⟩

end Newest

end ReliableDatagram.Channel
