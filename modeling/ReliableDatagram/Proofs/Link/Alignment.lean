import ReliableDatagram.Proofs.Channel.Alignment
import ReliableDatagram.Proofs.Link.History

/-!
# Aligned conversations

One direction of a conversation is aligned when its sender goes on with the stream that its receiver
has joined, and nothing in the air speaks of another stream. No network can undo that while both
channels live and the sender's own receive direction stays in its stream; and once both directions
are aligned, nothing is ever reset again.
-/

namespace ReliableDatagram

open Link Channel

variable {v w : Conversation} {e : End} {t : UInt32} {n : UInt8}
variable {ctx : Context} {op : Channel.Op} {c c' : Channel} {log : List Effect}
variable {ws : List ParkedWrite}

structure Aligned (t : UInt32) (v : Conversation) (e : End) : Prop where
  goesOn : GoesOn t (v.sender e)
  joined : Joined t (v.receiver e.other)
  starts : ∀ p ∈ v.air e, StartsAt t p
  calm : ∀ p ∈ v.air e.other, p.header.kind ≠ .reset

/-- No data packet in the air makes the receiver at the end `e` leave its stream. -/
def Keeping (v : Conversation) (e : End) : Prop :=
  ∀ p ∈ v.air e.other, Stays (.packet p) (v.receiver e)

namespace Conversation

theorem isSome_of_nextId (later : (v.sender e).nextId ≠ .streamStart) : (v.channel? e).isSome := by
  cases found : v.channel? e with
  | some => rfl
  | none =>
    have fresh : (v.sender e).nextId = .streamStart := by simp only [sender, found]
    exact absurd fresh later

theorem isSome_of_expected (later : (v.receiver e).expected ≠ .streamStart) :
    (v.channel? e).isSome := by
  cases found : v.channel? e with
  | some => rfl
  | none =>
    have fresh : (v.receiver e).expected = .streamStart := by simp only [receiver, found]
    exact absurd fresh later

/-- A channel that is there is the one that a table offers. -/
theorem offered_of_isSome {t : Table} {now : Nat} {key : Key} (found : t.find? key = v.channel? e)
    (offered : t.Offers now key c) (here : (v.channel? e).isSome) : v.channel? e = some c := by
  rcases offered with there | ⟨missing, _⟩
  · exact found.symm.trans there
  · rw [← found, missing] at here
    cases here

end Conversation

namespace Aligned

theorem sender_isSome (aligned : Aligned t v e) : (v.channel? e).isSome :=
  Conversation.isSome_of_nextId aligned.goesOn.nextId

theorem receiver_isSome (aligned : Aligned t v e) : (v.channel? e.other).isSome :=
  Conversation.isSome_of_expected aligned.joined.expected

theorem within (aligned : Aligned t w e) (within : v.Within w) : Aligned t v e := by
  refine ⟨?_, ?_, fun p mem => aligned.starts p ((within.air e).subset mem), fun p mem =>
    aligned.calm p ((within.air _).subset mem)⟩
  · rw [within.sender]
    exact aligned.goesOn
  · rw [within.receiver]
    exact aligned.joined

/-- The receiver stays in its stream, whatever else it hears. -/
theorem keeping (aligned : Aligned t v e) : Keeping v e.other := by
  intro p mem q same kind id
  obtain rfl : p = q := Channel.Op.packet.inj same
  rw [End.other_other] at mem
  rw [aligned.starts p mem kind id]
  exact .inr aligned.joined.startedAt

section Turn

variable (aligned : Aligned t v e) (sound : c.Sound) (known : op.Sound c.key)
variable (moves : Moves ctx op c log ws c')
include aligned sound known moves

theorem send (had : v.channel? e = some c) (heard : ∀ q, op = .packet q → q ∈ v.air e.other)
    (keeping : Keeping v e) : Aligned t (v.turn e (some c') (packets log)) e := by
  have goesOn := aligned.goesOn
  rw [Conversation.sender_of_some had] at goesOn
  have stays : Stays op c.receiver := by
    intro q asked kind id
    have kept := keeping q (heard q asked) q rfl kind id
    rwa [Conversation.receiver_of_some had] at kept
  obtain ⟨goesOn', starts⟩ :=
    moves.goesOn sound known goesOn (fun q asked => aligned.calm q (heard q asked)) stays
  constructor
  · simpa using goesOn'
  · simpa using aligned.joined
  · intro p mem
    rw [Conversation.turn_air_self] at mem
    rcases List.mem_append.mp mem with old | new
    · exact aligned.starts p old
    · exact starts p new
  · simpa using aligned.calm

theorem receive (had : v.channel? e.other = some c)
    (heard : ∀ q, op = .packet q → q ∈ v.air e) :
    Aligned t (v.turn e.other (some c') (packets log)) e := by
  have joined := aligned.joined
  rw [Conversation.receiver_of_some had] at joined
  obtain ⟨joined', silent⟩ :=
    moves.joined sound known joined fun q asked => aligned.starts q (heard q asked)
  constructor
  · simpa using aligned.goesOn
  · simpa using joined'
  · simpa using aligned.starts
  · intro p mem
    rw [Conversation.turn_air_self] at mem
    rcases List.mem_append.mp mem with old | new
    · exact aligned.calm p old
    · exact silent p new

end Turn

end Aligned

namespace Link

variable {l : Link} {operation : Op}

/-- No operation that spares the channels undoes an alignment, whatever the network does. -/
theorem aligned_apply (sound : l.Sound) (known : operation.Sound)
    (keeps : ∀ e, (l.channel? e n).isSome → ((l.apply operation).value.channel? e n).isSome)
    (aligned : Aligned t (l.conversation n) e) (keeping : Keeping (l.conversation n) e) :
    Aligned t ((l.apply operation).value.conversation n) e := by
  have kept : ∀ x, ((l.apply operation).value.channel? x n).isSome := by
    intro x
    by_cases here : x = e
    · subst here
      exact keeps x aligned.sender_isSome
    · obtain rfl : x = e.other := End.eq_other here
      exact keeps e.other aligned.receiver_isSome
  cases episode sound known n with
  | still view => exact aligned.within view
  | @act x asked c c' log ws offered heard own knownOp _ moves view =>
    rw [← offered.key_eq] at knownOp
    by_cases here : x = e
    · subst here
      have had := Conversation.offered_of_isSome rfl offered aligned.sender_isSome
      exact (aligned.send own knownOp moves had heard keeping).within view
    · obtain rfl : x = e.other := End.eq_other here
      have had := Conversation.offered_of_isSome rfl offered aligned.receiver_isSome
      rw [End.other_other] at heard
      exact (aligned.receive own knownOp moves had heard).within view
  | leave found own moves view => exact (not_kept view (kept _)).elim
  | forget restart view => exact (not_kept view (kept _)).elim

/-- Both directions are aligned. -/
def InStep (n : UInt8) (l : Link) : Prop := ∀ e, ∃ t, Aligned t (l.conversation n) e

theorem InStep.apply (inStep : InStep n l) (sound : l.Sound) (known : operation.Sound)
    (keeps : ∀ e, (l.channel? e n).isSome → ((l.apply operation).value.channel? e n).isSome) :
    InStep n (l.apply operation).value ∧
      ∀ e, ∀ y ∈ said e n (l.apply operation).log, y.isReset = false := by
  have kept : ∀ x, ((l.apply operation).value.channel? x n).isSome := by
    intro x
    obtain ⟨_, aligned⟩ := inStep x
    exact keeps x aligned.sender_isSome
  constructor
  · intro e
    obtain ⟨t, aligned⟩ := inStep e
    obtain ⟨_, back⟩ := inStep e.other
    have keeping := back.keeping
    rw [End.other_other] at keeping
    exact ⟨t, aligned_apply sound known keeps aligned keeping⟩
  · intro e y logged
    cases episode sound known n with
    | still view silent =>
      rw [silent] at logged
      cases logged
    | @act x asked c c' log ws offered heard own knownOp _ moves view speech =>
      rw [← offered.key_eq] at knownOp
      rw [speech] at logged
      split at logged
      · obtain ⟨_, there⟩ := inStep x
        obtain ⟨_, back⟩ := inStep x.other
        have had := Conversation.offered_of_isSome rfl offered there.sender_isSome
        have joined := back.joined
        rw [End.other_other, Conversation.receiver_of_some had] at joined
        exact moves.undisturbed own knownOp joined (fun q asked => back.starts q (heard q asked))
          (fun q asked => there.calm q (heard q asked)) y (List.mem_filter.mp logged).1
      · cases logged
    | leave found own moves view => exact (not_kept view (kept _)).elim
    | forget restart view => exact (not_kept view (kept _)).elim

/-- Once both directions are aligned, no run that spares the channels resets anything. -/
theorem InStep.run (inStep : InStep n l) (sound : l.Sound) {ops : List Op}
    (known : ∀ op ∈ ops, op.Sound) (keeps : ∀ e, Keeps e n ops l) :
    ∀ e, ∀ y ∈ said e n (run ops l).log, y.isReset = false := by
  induction ops generalizing l with
  | nil => nofun
  | cons op ops ih =>
    intro e y logged
    have first := known op List.mem_cons_self
    obtain ⟨inStep', silent⟩ := inStep.apply sound first fun e => (keeps e).1
    rw [log_run_cons, said_append] at logged
    rcases List.mem_append.mp logged with now | later
    · exact silent e y now
    · exact ih inStep' (sound.apply first) (fun op mem => known op (List.mem_cons_of_mem _ mem))
        (fun e => (keeps e).2) e y later

end Link

end ReliableDatagram
