import ReliableDatagram.Proofs.Link.Overture

/-!
# Resets after a restart

When one end's table is restarted in a quiet moment, the two ends may have to reset their channels.
In a calm run that is over once both have delivered something, unless the restarted end was the
first to do so while the other end was still in an old stream from it. After that no network can
make them reset again.
-/

namespace ReliableDatagram.Link

open Channel PacketId

variable {n : UInt8} {l : Link} {e x : End} {op : Op} {log log' : List (End × Effect)}

/-- The end that is the first to deliver something with a channel number. -/
def firstToDeliver (n : UInt8) (log : List (End × Effect)) : Option End :=
  (log.find? fun y => y.2.concerns n && y.2.payload?.isSome).map Prod.fst

theorem firstToDeliver_append (n : UInt8) (log log' : List (End × Effect)) :
    firstToDeliver n (log ++ log') = (firstToDeliver n log).or (firstToDeliver n log') := by
  rw [firstToDeliver, List.find?_append]
  cases found : log.find? fun y => y.2.concerns n && y.2.payload?.isSome with
  | none => simp [firstToDeliver, found]
  | some y => simp [firstToDeliver, found]

theorem delivered_of_firstToDeliver (first : firstToDeliver n log = some e) :
    delivered e n log ≠ [] := by
  obtain ⟨y, found, rfl⟩ := Option.map_eq_some_iff.mp first
  have seen := List.find?_some found
  obtain ⟨concerns, payload⟩ := Bool.and_eq_true_iff.mp seen
  obtain ⟨bytes, payload⟩ := Option.isSome_iff_exists.mp payload
  have logged : y ∈ log := List.mem_of_find?_eq_some found
  have heard : y.2 ∈ said y.1 n log := List.mem_filter.mpr
    ⟨List.mem_map.mpr ⟨y, List.mem_filter.mpr ⟨logged, by simp⟩, rfl⟩, concerns⟩
  exact List.ne_nil_of_mem (List.mem_filterMap.mpr ⟨y.2, heard, payload⟩)

theorem delivered_eq_nil (none : firstToDeliver n log = none) (e : End) :
    delivered e n log = [] := by
  have none := List.find?_eq_none.mp (Option.map_eq_none_iff.mp none)
  refine payloads_eq_nil fun y heard => ?_
  obtain ⟨heard, concerns⟩ := List.mem_filter.mp heard
  obtain ⟨z, logged, rfl⟩ := List.mem_map.mp heard
  have silent := none z (List.mem_filter.mp logged).1
  simpa [concerns] using silent

theorem firstToDeliver_eq_none (silent : ∀ e, delivered e n log = []) :
    firstToDeliver n log = none := by
  cases first : firstToDeliver n log with
  | none => rfl
  | some e => exact absurd (silent e) (delivered_of_firstToDeliver first)

theorem firstToDeliver_eq_some (delivers : delivered x n log ≠ [])
    (silent : delivered x.other n log = []) : firstToDeliver n log = some x := by
  cases first : firstToDeliver n log with
  | none => exact absurd (delivered_eq_nil first x) delivers
  | some e =>
    by_cases here : e = x
    · rw [here]
    · obtain rfl : e = x.other := End.eq_other here
      exact absurd silent (delivered_of_firstToDeliver first)

/-- What may follow on an overture. -/
inductive Sequel (n : UInt8) (x : End) (w : Conversation) (log : List (End × Effect)) : Prop
  | overture (next : Overture w x) (silent : ∀ e, delivered e n log = [])
  | settled (aligned : ∃ t, Aligned t w x) (awaits : Awaits True w x.other)
    (silent : delivered x n log = [])
  | heard (delivers : delivered x n log ≠ []) (silent : delivered x.other n log = [])

theorem overture_apply (overture : Overture (l.conversation n) x)
    (episode : CalmEpisode n l op) :
    Sequel n x ((l.apply op).value.conversation n) (l.apply op).log := by
  have spoken {y : End} {log : List Effect}
      (speech : ∀ z, said z n (l.apply op).log = if z = y then voice n log else []) (z : End) :
      delivered z n (l.apply op).log = if z = y then payloads (voice n log) else [] := by
    rw [delivered, speech]
    split <;> rfl
  have nothing {y : End} {log : List Effect}
      (speech : ∀ z, said z n (l.apply op).log = if z = y then voice n log else [])
      (silent : payloads log = []) (z : End) : delivered z n (l.apply op).log = [] := by
    rw [spoken speech, payloads_voice silent]
    split <;> rfl
  cases episode with
  | still view silent =>
    refine .overture ?_ fun y => ?_
    · rwa [view]
    · rw [delivered, silent]
      rfl
  | @hear y p rest c c' log first offered sound known exact view speech =>
    have stands := stands offered
    by_cases here : y = x
    · subst here
      rcases overture.hear_peer first stands sound known exact with ⟨next, silent⟩ | ⟨aligned, awaits⟩
      · refine .overture ?_ (nothing speech silent)
        rw [view]
        exact next
      · refine .settled ?_ ?_ ?_
        · rw [view]
          exact aligned
        · rw [view]
          exact awaits
        · rw [spoken speech, if_neg y.other_ne.symm]
    · obtain rfl : y = x.other := End.eq_other here
      rw [End.other_other] at stands speech
      rcases overture.hear_self first stands sound known exact with ⟨next, silent⟩ | delivers
      · refine .overture ?_ (nothing speech silent)
        rw [view]
        exact next
      · have log' : log = (c.onPacket (l.context x.other.other) p).log := by rw [exact]
        have speaks := (moves_onPacket (l.context x.other.other) c p).speaks sound known
        have whole : payloads (voice n log) = payloads log := by
          rw [log']
          exact filterMap_voice (fun _ _ => rfl) speaks (by rw [offered.key_eq]; rfl)
        refine .heard ?_ ?_
        · rwa [spoken speech, if_pos rfl, whole]
        · rw [spoken speech, if_neg x.other_ne]
  | @miss y p rest first missing closed view silent =>
    by_cases here : y = x
    · subst here
      have there := Conversation.isSome_of_expected overture.expected
      have missing : (l.conversation n).channel? y.other = none := missing
      rw [missing] at there
      cases there
    · obtain rfl : y = x.other := End.eq_other here
      rw [End.other_other] at missing
      refine .overture ?_ fun z => ?_
      · rw [view]
        exact overture.miss_self first missing closed
      · rw [delivered, silent]
        rfl
  | @act y asked c c' log ws quiet offered sound own known exact moves view speech =>
    have stands := stands offered
    have next : Overture ((l.conversation n).turn y (some c') (packets log)) x ∧
        payloads log = [] := by
      by_cases here : y = x
      · subst here
        exact overture.act_self quiet own sound known moves exact stands
      · obtain rfl : y = x.other := End.eq_other here
        exact overture.act_peer quiet own sound known moves exact stands
    refine .overture ?_ (nothing speech next.2)
    rw [view]
    exact next.1

/-- If the restarted end is not the first to deliver something, both ends are in step once each has
delivered something. -/
theorem overture_run {ops : List Op} (overture : Overture (l.conversation n) x) (sound : l.Sound)
    (known : ∀ op ∈ ops, op.Sound) (calm : Calm ops l) (keeps : ∀ e, Keeps e n ops l)
    (spoke : ∀ e, delivered e n (run ops l).log ≠ [])
    (first : firstToDeliver n (run ops l).log ≠ some x) : InStep n (run ops l).value := by
  induction ops generalizing l with
  | nil => exact absurd rfl (spoke x)
  | cons op ops ih =>
    have knownOp := known op List.mem_cons_self
    have knownOps : ∀ op ∈ ops, op.Sound := fun op mem => known op (List.mem_cons_of_mem _ mem)
    have episode := calm_episode sound knownOp calm.1 fun e => (keeps e).1
    rw [log_run_cons, firstToDeliver_append] at first
    simp only [log_run_cons, delivered_append] at spoke
    cases overture_apply overture episode with
    | overture next silent =>
      rw [firstToDeliver_eq_none silent, Option.none_or] at first
      simp only [silent, List.nil_append] at spoke
      exact ih next (sound.apply knownOp) knownOps calm.2 (fun e => (keeps e).2) spoke first
    | settled aligned awaits silent =>
      have settles : ∀ e, Settles ((l.apply op).value.conversation n) e := by
        intro e
        by_cases here : e = x
        · rw [here]
          exact .inr aligned
        · rw [End.eq_other here]
          exact .inl awaits
      have settled := settles_run settles (sound.apply knownOp) knownOps calm.2 fun e => (keeps e).2
      intro e
      by_cases here : e = x
      · subst here
        obtain ⟨_, aligned⟩ := aligned
        rcases settled e with ⟨waiting, _⟩ | done
        · exact absurd waiting.expected aligned.joined.expected
        · exact done
      · obtain rfl : e = x.other := End.eq_other here
        rcases settled x.other with ⟨_, _, later⟩ | done
        · rw [End.other_other] at later
          have spoke := spoke x
          rw [silent, later] at spoke
          exact absurd rfl spoke
        · exact done
    | heard delivers silent =>
      rw [firstToDeliver_eq_some delivers silent] at first
      exact absurd rfl first

/-- What holds of both directions at an end in every reachable state. -/
structure Orderly (v : Conversation) (e : End) : Prop where
  steady : Steady (v.sender e)
  idle : Idle (v.receiver e)

theorem orderly_of_none {v : Conversation} (missing : v.channel? e = none) : Orderly v e := by
  constructor
  · simp only [Conversation.sender, missing]
    exact .blank ⟨rfl, rfl⟩
  · simp only [Conversation.receiver, missing]
    exact fun _ => rfl

theorem Orderly.within {v w : Conversation} (orderly : Orderly w e) (within : v.Within w) :
    Orderly v e := by
  constructor
  · rw [within.sender]
    exact orderly.steady
  · rw [within.receiver]
    exact orderly.idle

theorem orderly_apply (orderly : Orderly (l.conversation n) e) (sound : l.Sound)
    (known : op.Sound) : Orderly ((l.apply op).value.conversation n) e := by
  have gone {x : End} {sent : List Packet} : Orderly ((l.conversation n).turn x none sent) e := by
    by_cases here : e = x
    · subst here
      exact orderly_of_none (Conversation.turn_channel?_self _ e _ _)
    · obtain rfl : x = e.other := End.eq_other fun same => here same.symm
      constructor
      · simpa using orderly.steady
      · simpa using orderly.idle
  cases episode sound known n with
  | still view => exact orderly.within view
  | @act x asked c c' log ws offered heard own knownOp exact moves view =>
    refine Orderly.within ?_ view
    rw [← offered.key_eq] at knownOp
    by_cases here : x = e
    · subst here
      have stands := stands offered
      have steady := orderly.steady.of_same stands.nextId stands.contents
      have idle := orderly.idle
      rw [← stands.receiver] at idle
      constructor
      · simpa using moves.steady own knownOp steady
      · simpa using moves.idle own knownOp idle
    · obtain rfl : x = e.other := End.eq_other here
      constructor
      · simpa using orderly.steady
      · simpa using orderly.idle
  | leave found own moves view => exact gone.within view
  | forget restart view => exact gone.within view

theorem orderly_run {ops : List Op} (orderly : Orderly (l.conversation n) e) (sound : l.Sound)
    (known : ∀ op ∈ ops, op.Sound) : Orderly ((run ops l).value.conversation n) e := by
  induction ops generalizing l with
  | nil => exact orderly
  | cons op ops ih =>
    have first := known op List.mem_cons_self
    exact ih (orderly_apply orderly sound first) (sound.apply first) fun op mem =>
      known op (List.mem_cons_of_mem _ mem)

/-- The link when the table at the end `x` is restarted after a run. -/
def renewed (before : List Op) (x : End) (base : UInt32) (l : Link) : Link :=
  ((run before l).value.restart x base).2

section Restart

variable {base : UInt32}

theorem channel?_restart (l : Link) (x y : End) :
    (l.restart x base).2.channel? y n = if y = x then none else l.channel? y n := by
  show ((l.restart x base).2.side y).table.find? ((l.prepare (.restart x base)).key y n) = _
  rw [key_prepare]
  simp only [restart, side_setSide]
  split
  · rfl
  · rfl

theorem air_restart (quiet : l.isQuiet = true) (x y : End) :
    (l.restart x base).2.air y n = [] := by
  have fewer := air_prepare (n := n) l (.restart x base) y
  rw [air_of_quiet quiet] at fewer
  exact List.sublist_nil.mp fewer

theorem channel?_restart_other (l : Link) (x : End) :
    ((l.restart x base).2.conversation n).channel? x.other =
      (l.conversation n).channel? x.other :=
  (channel?_restart l x x.other).trans (if_neg x.other_ne)

theorem receiver_restart_self (l : Link) (x : End) :
    ((l.restart x base).2.conversation n).receiver x = {} := by
  have missing : ((l.restart x base).2.conversation n).channel? x = none :=
    (channel?_restart l x x).trans (if_pos rfl)
  simp only [Conversation.receiver, missing]

theorem blank_restart (l : Link) (x : End) :
    Blank (((l.restart x base).2.conversation n).sender x) := by
  have missing : ((l.restart x base).2.conversation n).channel? x = none :=
    (channel?_restart l x x).trans (if_pos rfl)
  simp only [Conversation.sender, missing]
  exact ⟨rfl, rfl⟩

theorem sender_restart_other (l : Link) (x : End) :
    ((l.restart x base).2.conversation n).sender x.other = (l.conversation n).sender x.other := by
  simp only [Conversation.sender, channel?_restart_other]

theorem receiver_restart_other (l : Link) (x : End) :
    ((l.restart x base).2.conversation n).receiver x.other =
      (l.conversation n).receiver x.other := by
  simp only [Conversation.receiver, channel?_restart_other]

/-- A restart in a quiet moment makes the restarted end wait for a stream. -/
theorem awaits_restart_self (quiet : l.isQuiet = true)
    (orderly : Orderly (l.conversation n) x.other) :
    Awaits False ((l.restart x base).2.conversation n) x.other := by
  have air (e : End) : ((l.restart x base).2.conversation n).air e = [] := air_restart quiet x e
  constructor
  · rw [End.other_other, receiver_restart_self]
  · rw [End.other_other, receiver_restart_self, sender_restart_other, air, air]
    cases orderly.steady with
    | blank blank => exact .starting (.blank blank) nofun
    | opening opening => exact .starting (.opening opening nofun) nofun
    | running running => exact .astray running nofun nofun

/-- The other end waits as well if it had no stream. -/
theorem awaits_restart_other (quiet : l.isQuiet = true)
    (waiting : ((l.conversation n).receiver x.other).expected = .streamStart) :
    Awaits True ((l.restart x base).2.conversation n) x := by
  have air (e : End) : ((l.restart x base).2.conversation n).air e = [] := air_restart quiet x e
  constructor
  · rwa [receiver_restart_other]
  · rw [air, air]
    exact .starting (.blank (blank_restart l x)) fun _ => trivial

/-- Otherwise there is an overture to come. -/
theorem overture_restart (quiet : l.isQuiet = true)
    (orderly : Orderly (l.conversation n) x.other)
    (started : ((l.conversation n).receiver x.other).expected ≠ .streamStart) :
    Overture ((l.restart x base).2.conversation n) x := by
  have air (e : End) : ((l.restart x base).2.conversation n).air e = [] := air_restart quiet x e
  refine ⟨?_, ?_, ?_, awaits_restart_self quiet orderly, ?_, fun begun => ?_⟩
  · rwa [receiver_restart_other]
  · rw [receiver_restart_other]
    exact orderly.idle started
  · rw [air]
    rfl
  · rw [air]
    exact .blank (blank_restart l x)
  · exact absurd (blank_restart l x).nextId begun

end Restart

/-- Let one end's table be restarted while nothing is in the air, and let a calm run follow in which
both ends deliver something. If the other end had no stream from the restarted end, or the restarted
end is not the first of them to deliver, then nothing is reset any more, whatever the network does. -/
theorem resets_die_out {l : Link} {before middle rest : List Op} {x : End} {base : UInt32}
    (n : UInt8) (fresh : l.Fresh) (known : ∀ op ∈ before ++ middle ++ rest, op.Sound)
    (quiet : (run before l).value.isQuiet = true) (calm : Calm middle (renewed before x base l))
    (keeps : ∀ e, Keeps e n (middle ++ rest) (renewed before x base l))
    (spoke : ∀ e, delivered e n (run middle (renewed before x base l)).log ≠ [])
    (order : (((run before l).value.conversation n).receiver x.other).expected = .streamStart ∨
      firstToDeliver n (run middle (renewed before x base l)).log ≠ some x) :
    ∀ e, ∀ y ∈ said e n (run rest (run middle (renewed before x base l)).value).log,
      y.isReset = false := by
  have knownBefore : ∀ op ∈ before, op.Sound := fun op mem =>
    known op (List.mem_append_left _ (List.mem_append_left _ mem))
  have knownMiddle : ∀ op ∈ middle, op.Sound := fun op mem =>
    known op (List.mem_append_left _ (List.mem_append_right _ mem))
  have knownRest : ∀ op ∈ rest, op.Sound := fun op mem => known op (List.mem_append_right _ mem)
  have sound := fresh.sound.run knownBefore
  have orderly : Orderly ((run before l).value.conversation n) x.other :=
    orderly_run (orderly_of_none (fresh.channel? _ n)) fresh.sound knownBefore
  have soundRenewed : (renewed before x base l).Sound := sound.prepare (.restart x base)
  have keepsMiddle := fun e => (keeps_append.mp (keeps e)).1
  have inStep : InStep n (run middle (renewed before x base l)).value := by
    by_cases waiting :
        (((run before l).value.conversation n).receiver x.other).expected = .streamStart
    · have settles : ∀ e, Settles ((renewed before x base l).conversation n) e := by
        intro e
        by_cases here : e = x
        · rw [here]
          exact .inl (awaits_restart_other quiet waiting)
        · rw [End.eq_other here]
          exact .inl ((awaits_restart_self quiet orderly).mono False.elim)
      exact inStep_run settles soundRenewed knownMiddle calm keepsMiddle spoke
    · exact overture_run (overture_restart quiet orderly waiting) soundRenewed knownMiddle calm
        keepsMiddle spoke (order.resolve_left waiting)
  exact inStep.run (soundRenewed.run knownMiddle) knownRest fun e => (keeps_append.mp (keeps e)).2

/-- The end `a` greets the other end and writes once. -/
def greeting : List Op :=
  [.connect .a 1, .deliver .a 0, .deliver .b 0, .pass millisecond, .write .a 1 1 ⟨0, [1]⟩,
    .deliver .a 0, .deliver .b 0, .pass millisecond]

/-- After its restart the end `a` writes first, and `b` leaves the old stream. -/
def comeback : List Op :=
  [.pass millisecond, .connect .a 1, .deliver .a 0, .deliver .b 0, .pass millisecond,
    .write .a 1 1 ⟨1, [2]⟩, .deliver .a 0, .deliver .b 0, .pass millisecond,
    .write .b 1 1 ⟨0, [3]⟩, .deliver .b 0, .deliver .a 0]

/-- Two more writes, in a network that changes the order. -/
def conversing : List Op :=
  [.write .a 1 1 ⟨2, [4]⟩, .copy .a 0, .write .b 1 1 ⟨1, [5]⟩, .deliver .b 1, .deliver .a 0,
    .deliver .b 0]

theorem resets_die_out_of_comeback :
    (said .b 1 (run comeback (renewed greeting .a 2 pair)).log).any (·.isReset) = true ∧
      (∀ e, delivered e 1 (run conversing (run comeback (renewed greeting .a 2 pair)).value).log ≠
        []) ∧
      ∀ e, ∀ y ∈ said e 1 (run conversing (run comeback (renewed greeting .a 2 pair)).value).log,
        y.isReset = false := by
  have quiet : (run greeting pair).value.isQuiet = true := by decide +kernel
  have calm : Calm comeback (renewed greeting .a 2 pair) := by decide +kernel
  have keeps (e : End) : Keeps e 1 (comeback ++ conversing) (renewed greeting .a 2 pair) := by
    cases e <;> decide +kernel
  have spoke (e : End) : delivered e 1 (run comeback (renewed greeting .a 2 pair)).log ≠ [] := by
    cases e <;> decide +kernel
  have order : firstToDeliver 1 (run comeback (renewed greeting .a 2 pair)).log ≠ some .a := by
    decide +kernel
  refine ⟨by decide +kernel, fun e => ?_, ?_⟩
  · cases e <;> decide +kernel
  · exact resets_die_out 1 fresh_pair (by decide) quiet calm keeps spoke (.inr order)

/-- At least a millisecond passes between what the ends do of their own accord. -/
def isSpaced (waited : Bool) : List Op → Bool
  | [] => true
  | .pass duration :: ops => isSpaced (waited || decide (millisecond ≤ duration)) ops
  | .deliver _ _ :: ops => isSpaced waited ops
  | _ :: ops => waited && isSpaced false ops

/-- After the restart of `a` the end `b` writes first. -/
def earlyAnswer : List Op :=
  [.pass millisecond, .write .b 1 1 ⟨0, [2]⟩, .deliver .b 0, .deliver .a 0, .pass millisecond,
    .write .a 1 1 ⟨1, [3]⟩, .deliver .a 0, .deliver .b 0, .pass millisecond]

/-- If the restarted end delivers something before the other end has left the old stream, then the
next write from there resets the channel again, even in a calm run. -/
theorem not_resets_die_out_of_earlyAnswer :
    ¬∀ (l : Link) (before middle rest : List Op) (x : End) (base : UInt32) (n : UInt8), l.Fresh →
      (∀ op ∈ before ++ middle ++ rest, op.Sound) → Calm before l →
      (run before l).value.isQuiet = true →
      base = ((run before l).value.clock x).timestamp (run before l).value.now →
      Calm (middle ++ rest) (renewed before x base l) →
      isSpaced true (before ++ .restart x base :: (middle ++ rest)) = true →
      (∀ e, Keeps e n (middle ++ rest) (renewed before x base l)) →
      (∀ e, ∃ payload ∈ delivered e n (run middle (renewed before x base l)).log,
        payload ∈ accepted e.other n middle (renewed before x base l)) →
      ∀ e, ∀ y ∈ said e n (run rest (run middle (renewed before x base l)).value).log,
        y.isReset = false := by
  intro ended
  have keeps (e : End) : Keeps e 1 (earlyAnswer ++ [.write .b 1 1 ⟨1, [4]⟩, .deliver .b 0])
      (renewed greeting .a 2 pair) := by
    cases e <;> decide +kernel
  have spoke (e : End) : ∃ payload ∈ delivered e 1 (run earlyAnswer (renewed greeting .a 2 pair)).log,
      payload ∈ accepted e.other 1 earlyAnswer (renewed greeting .a 2 pair) := by
    cases e <;> decide +kernel
  have silent := ended pair greeting earlyAnswer [.write .b 1 1 ⟨1, [4]⟩, .deliver .b 0] .a 2 1
    fresh_pair (by decide) (by decide +kernel) (by decide +kernel) (by decide +kernel)
    (by decide +kernel) (by decide) keeps spoke .a
  revert silent
  decide +kernel

end ReliableDatagram.Link
