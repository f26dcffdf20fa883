import ReliableDatagram.Proofs.Link.Awaiting

/-!
# Settling down

A direction settles when it awaits a stream or is aligned already. While both directions settle, a
calm run only ever goes from waiting to an alignment, and a receiver that has delivered something is
aligned.
-/

namespace ReliableDatagram.Link

open Channel

variable {n : UInt8} {l : Link} {e x : End} {op : Op}

def Settles (v : Conversation) (e : End) : Prop := Awaits True v e ∨ ∃ t, Aligned t v e

/-- In this direction nothing was delivered on the way, or it is aligned now. -/
def Settled (n : UInt8) (v w : Conversation) (log : List (End × Effect)) (e : End) : Prop :=
  Awaits True v e ∧ Awaits True w e ∧ delivered e.other n log = [] ∨ ∃ t, Aligned t w e

theorem Settled.settles {v w : Conversation} {log : List (End × Effect)}
    (settled : Settled n v w log e) : Settles w e := by
  rcases settled with ⟨_, awaits, _⟩ | aligned
  · exact .inl awaits
  · exact .inr aligned

theorem Settles.keeping {v : Conversation} (settles : Settles v e) : Keeping v e.other := by
  rcases settles with awaits | ⟨_, aligned⟩
  · exact awaits.keeping
  · exact aligned.keeping

/-- What a chain of moves has not delivered is not in its voice either. -/
theorem payloads_voice {log : List Effect} (silent : payloads log = []) :
    payloads (voice n log) = [] :=
  List.sublist_nil.mp (silent ▸ List.filter_sublist.filterMap _)

theorem stands {c : Channel} (offered : (l.side e).table.Offers l.now (l.key e n) c) :
    (l.conversation n).Stands e c := Conversation.stands_of_offers rfl offered

/-- Waiting in a calm run ends with an alignment if it ends at all. -/
theorem awaits_apply (awaits : Awaits True (l.conversation n) e)
    (keeping : Keeping (l.conversation n) e) (episode : CalmEpisode n l op) :
    Settled n (l.conversation n) ((l.apply op).value.conversation n) (l.apply op).log e := by
  cases episode with
  | still view silent =>
    refine .inl ⟨awaits, ?_, ?_⟩
    · rwa [view]
    · rw [delivered, silent]
      rfl
  | @hear x p rest c c' log first offered sound known exact view speech =>
    by_cases here : x = e
    · subst here
      rcases awaits.receive first (stands offered) sound known exact with ⟨next, silent⟩ | ⟨⟨t, aligned⟩, _⟩
      · refine .inl ⟨awaits, ?_, ?_⟩
        · rw [view]
          exact next
        · rw [delivered, speech, if_pos rfl]
          exact payloads_voice silent
      · refine .inr ⟨t, ?_⟩
        rw [view]
        exact aligned
    · obtain rfl : x = e.other := End.eq_other here
      have stands := stands offered
      rw [End.other_other] at stands
      have heard : p ∈ (l.conversation n).air e.other := by
        rw [show (l.conversation n).air e.other = _ from first]
        exact List.mem_cons_self
      refine .inl ⟨awaits, ?_, ?_⟩
      · rw [view]
        have stays := keeping p heard
        exact awaits.attend first stands stays sound known exact
      · rw [delivered, speech, if_neg (End.other_ne _).symm]
        rfl
  | @miss x p rest first missing closed view silent =>
    have nothing : delivered e.other n (l.apply op).log = [] := by
      rw [delivered, silent]
      rfl
    refine .inl ⟨awaits, ?_, nothing⟩
    rw [view]
    by_cases here : x = e
    · subst here
      exact awaits.miss_receive first missing closed
    · obtain rfl : x = e.other := End.eq_other here
      rw [End.other_other] at missing
      exact awaits.miss_attend first missing
  | @act x asked c c' log ws quiet offered sound own known exact moves view speech =>
    by_cases here : x = e
    · subst here
      refine .inl ⟨awaits, ?_, ?_⟩
      · rw [view]
        exact awaits.speak quiet own sound known moves (stands offered)
      · rw [delivered, speech, if_neg x.other_ne]
        rfl
    · obtain rfl : x = e.other := End.eq_other here
      obtain ⟨next, silent⟩ := awaits.insist quiet own sound known moves (stands offered) exact
      refine .inl ⟨awaits, ?_, ?_⟩
      · rw [view]
        exact next
      · rw [delivered, speech, if_pos rfl]
        exact payloads_voice silent

theorem settles_apply (settles : ∀ e, Settles (l.conversation n) e) (sound : l.Sound)
    (known : op.Sound) (calm : op.Calm l)
    (keeps : ∀ e, (l.channel? e n).isSome → ((l.apply op).value.channel? e n).isSome) (e : End) :
    Settled n (l.conversation n) ((l.apply op).value.conversation n) (l.apply op).log e := by
  have keeping := (settles e.other).keeping
  rw [End.other_other] at keeping
  rcases settles e with awaits | ⟨t, aligned⟩
  · exact awaits_apply awaits keeping (calm_episode sound known calm keeps)
  · exact .inr ⟨t, aligned_apply sound known keeps aligned keeping⟩

theorem settles_run {ops : List Op} (settles : ∀ e, Settles (l.conversation n) e)
    (sound : l.Sound) (known : ∀ op ∈ ops, op.Sound) (calm : Calm ops l)
    (keeps : ∀ e, Keeps e n ops l) (e : End) :
    Settled n (l.conversation n) ((run ops l).value.conversation n) (run ops l).log e := by
  induction ops generalizing l with
  | nil =>
    rcases settles e with awaits | aligned
    · exact .inl ⟨awaits, awaits, rfl⟩
    · exact .inr aligned
  | cons op ops ih =>
    have first := known op List.mem_cons_self
    have step := settles_apply settles sound first calm.1 fun e => (keeps e).1
    rcases ih (fun e => (step e).settles) (sound.apply first)
      (fun op mem => known op (List.mem_cons_of_mem _ mem)) calm.2 (fun e => (keeps e).2)
      with ⟨waiting, awaits, later⟩ | aligned
    · rcases step e with ⟨before, _, now⟩ | ⟨_, aligned⟩
      · refine .inl ⟨before, awaits, ?_⟩
        rw [log_run_cons, delivered_append, now, later]
        rfl
      · exact absurd waiting.expected aligned.joined.expected
    · exact .inr aligned

/-- Two ends that have delivered something to each other are in step. -/
theorem inStep_run {ops : List Op} (settles : ∀ e, Settles (l.conversation n) e)
    (sound : l.Sound) (known : ∀ op ∈ ops, op.Sound) (calm : Calm ops l)
    (keeps : ∀ e, Keeps e n ops l) (spoke : ∀ e, delivered e n (run ops l).log ≠ []) :
    InStep n (run ops l).value := by
  intro e
  rcases settles_run settles sound known calm keeps e with ⟨_, _, silent⟩ | aligned
  · exact absurd silent (spoke _)
  · exact aligned

end ReliableDatagram.Link
