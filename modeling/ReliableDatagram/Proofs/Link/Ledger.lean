import ReliableDatagram.Proofs.Channel.Backlog
import ReliableDatagram.Proofs.Channel.Patience
import ReliableDatagram.Proofs.Channel.Tickets
import ReliableDatagram.Proofs.Link.History
import ReliableDatagram.Proofs.Table.Concern

/-!
# What becomes of the writes

As long as a channel lives on and nothing is reset, the writes that it took in are sent in the order
of the calls, wait for nothing but room in the send queue, and are answered when they are sent.
-/

namespace ReliableDatagram.Link

open Channel

variable {l : Link} {e x : End} {n : UInt8} {op : Op}

section Patience

theorem abides_patient (valid : ∀ e, 0 < (l.config e).defaultQueueSize) :
    l.Abides fun _ c => Patient c.sender := by
  constructor
  · exact fun e key generation now => patient_create key generation now (valid e)
  · intro e ctx asked c c' log ws config _ _ exact _ patient
    have after := patient_apply ctx asked (by rw [config]; exact valid e) patient
    rwa [exact] at after

end Patience

section Numbering

variable {total m : Nat} {ks : List Nat}

/-- What a channel does not reset by its voice it does not reset at all. -/
theorem not_isReset_of_voice {key : Key} {log : List Effect} (speaks : ∀ y ∈ log, y.Speaks key)
    (own : key.channel = n) (quiet : ∀ y ∈ voice n log, y.isReset = false) :
    ∀ y ∈ log, y.isReset = false := by
  intro y logged
  cases reset : y.isReset with
  | false => rfl
  | true =>
    have heard : y.concerns n = true := by
      cases y with
      | emit event =>
        have key : event.key? = some key := speaks _ logged
        simp [Effect.concerns, key, own]
      | _ => cases reset
    rw [← reset]
    exact quiet y (List.mem_filter.mpr ⟨logged, heard⟩)

theorem numbered_apply (sound : l.Sound) (known : op.Sound) (regular : op.isRestart = false)
    (keeps : ∀ e, (l.channel? e n).isSome → ((l.apply op).value.channel? e n).isSome)
    (quiet : ∀ e, ∀ y ∈ said e n (l.apply op).log, y.isReset = false)
    (numbered : Numbered total m ks ((l.conversation n).sender e)) :
    ∃ m' ks', Numbered (total + (l.accepts e n op).length) m' ks'
      (((l.apply op).value.conversation n).sender e) := by
  cases episode sound known n with
  | still view silent accepts =>
    rw [accepts, view.sender]
    exact ⟨m, ks, numbered⟩
  | @act x asked c c' log ws offered heard own knownOp _ moves view speech accepts =>
    have key := offered.key_eq
    rw [accepts, view.sender]
    by_cases here : e = x
    · subst here
      have calm : ∀ y ∈ log, y.isReset = false := by
        refine not_isReset_of_voice (moves.speaks own (by rwa [key])) (by rw [key]) ?_
        have calm := quiet e
        rwa [speech, if_pos rfl] at calm
      have stands : (l.conversation n).Stands e c := Conversation.stands_of_offers rfl offered
      have begun := numbered.of_same stands.nextId stands.contents stands.parked
      rw [if_pos rfl, Conversation.sender_turn_self, List.length_map]
      exact moves.numbered own (by rwa [key]) calm begun
    · obtain rfl : e = x.other := End.eq_other here
      rw [if_neg here, Conversation.sender_turn_other]
      exact ⟨m, ks, numbered⟩
  | @leave x c c' log reason found _ _ view =>
    exact (not_kept view (keeps x (by rw [found]; rfl))).elim
  | forget restart =>
    rw [restart] at regular
    cases regular

/-- In every run without resets, the senders number their packets in the order of the writes. -/
theorem numbered_run {ops : List Op} (sound : l.Sound) (regular : ∀ op ∈ ops, op.Regular)
    (keeps : ∀ e, Keeps e n ops l) (quiet : ∀ e, ∀ y ∈ said e n (run ops l).log, y.isReset = false)
    (numbered : Numbered total m ks ((l.conversation n).sender e)) :
    ∃ m' ks', Numbered (total + (accepted e n ops l).length) m' ks'
      (((run ops l).value.conversation n).sender e) := by
  induction ops generalizing l total m ks with
  | nil => exact ⟨m, ks, numbered⟩
  | cons op ops ih =>
    obtain ⟨known, runs⟩ := regular op List.mem_cons_self
    have parts : ∀ e, ∀ y, y ∈ said e n (l.apply op).log ∨
        y ∈ said e n (run ops (l.apply op).value).log → y.isReset = false := by
      intro e y logged
      refine quiet e y ?_
      rw [log_run_cons, said_append]
      exact List.mem_append.mpr logged
    obtain ⟨m', ks', next⟩ := numbered_apply sound known runs (fun e => (keeps e).1)
      (fun e y logged => parts e y (.inl logged)) numbered
    rw [accepted, List.length_append, ← Nat.add_assoc, value_run_cons]
    exact ih (sound.apply known) (fun op mem => regular op (List.mem_cons_of_mem _ mem))
      (fun e => (keeps e).2) (fun e y logged => parts e y (.inr logged)) next

theorem Fresh.numbered (fresh : l.Fresh) (e : End) (n : UInt8) :
    Numbered 0 0 [] ((l.conversation n).sender e) := by
  have missing : (l.conversation n).channel? e = none := fresh.channel? e n
  simp only [Conversation.sender, missing]
  exact ⟨rfl, rfl, .nil 0⟩

end Numbering

section Answers

variable {c : Channel} {w : ParkedWrite}

theorem channel?_prepare (regular : op.isRestart = false) :
    (l.prepare op).channel? e n = l.channel? e n := by
  unfold channel?
  rw [key_prepare]
  cases op with
  | deliver x i | lose x i => exact congrArg (fun t => t.find? (l.key e n)) (table_lose l x e i)
  | restart => cases regular
  | _ => rfl

theorem channel?_perform_self {r : Table.Request} (sound : l.Sound)
    (asked : l.request? op = some (e, r)) :
    ((l.prepare op).perform e r).value.2.channel? e n =
      ((l.side e).table.part l.now (l.key e n) (.request r)).value := by
  unfold channel?
  rw [key_perform, key_prepare]
  simp only [perform, launch, side_setSide_self, prepare_table asked, prepare_now asked]
  exact Table.find?_apply (sound e).order l.now (.request r) _

theorem channel?_perform_other (l : Link) (e : End) (n : UInt8) (r : Table.Request) :
    (l.perform e r).value.2.channel? e.other n = l.channel? e.other n := by
  unfold channel?
  rw [key_perform]
  simp only [perform, launch, side_setSide_other]

/-- A write that is parked in a channel is still parked after the channel's part of a request, or
it is answered there. -/
theorem waits_part {t : Table} {key : Key} {r : Table.Request} (now : Nat)
    (found : t.find? key = some c) (waits : w ∈ c.sender.parked)
    (kept : (t.part now key (.request r)).value.isSome) :
    (∃ c', (t.part now key (.request r)).value = some c' ∧ w ∈ c'.sender.parked) ∨
      .reply w.ticket (.ok w.payload.length) ∈ (t.part now key (.request r)).log := by
  cases concerned : t.concern? key (.request r) with
  | none =>
    rw [Table.part_of_unconcerned concerned]
    exact .inl ⟨c, found, waits⟩
  | some q =>
    rw [Table.part_of_concerned concerned] at kept ⊢
    have served := Table.served_serve (t.context now) key t.nextGeneration (t.find? key) q
    generalize Table.serve (t.context now) key t.nextGeneration (t.find? key) q = y at served kept ⊢
    cases served with
    | idle => exact .inl ⟨c, found, waits⟩
    | refuse => exact .inl ⟨c, found, waits⟩
    | @act _ _ d y _ asks here moves =>
      obtain rfl : d = c := Option.some.inj (here.symm.trans found)
      rcases moves.waits waits with still | answered
      · exact .inl ⟨y.value, rfl, still⟩
      · exact .inr answered
    | create _ _ missing => cases missing.symm.trans found
    | leave => cases kept

/-- A parked write is still parked after an operation, or the operation answers it. -/
theorem waits_apply (sound : l.Sound) (regular : op.isRestart = false)
    (keeps : (l.channel? e n).isSome → ((l.apply op).value.channel? e n).isSome)
    (found : l.channel? e n = some c) (waits : w ∈ c.sender.parked) :
    (∃ c', (l.apply op).value.channel? e n = some c' ∧ w ∈ c'.sender.parked) ∨
      (e, .reply w.ticket (.ok w.payload.length)) ∈ (l.apply op).log := by
  have kept := keeps (by rw [found]; rfl)
  cases asked : l.request? op with
  | none =>
    rw [apply_of_no_request asked]
    exact .inl ⟨c, (channel?_prepare regular).trans found, waits⟩
  | some request =>
    obtain ⟨x, r⟩ := request
    rw [apply_of_request asked] at kept ⊢
    by_cases own : e = x
    · subst own
      have value := channel?_perform_self (n := n) sound asked
      have kept : ((l.side e).table.part l.now (l.key e n) (.request r)).value.isSome :=
        value ▸ kept
      rcases waits_part l.now found waits kept with ⟨c', there, still⟩ | answered
      · exact .inl ⟨c', value.trans there, still⟩
      · refine .inr (List.mem_map.mpr ⟨_, ?_, rfl⟩)
        rw [prepare_table asked, prepare_now asked]
        exact Table.mem_log_of_part answered
    · obtain rfl : e = x.other := End.eq_other own
      have same := channel?_perform_other (l.prepare op) x n r
      exact .inl ⟨c, same.trans ((channel?_prepare regular).trans found), waits⟩

/-- A parked write is still parked after a run, or it was answered. -/
theorem waits_run {ops : List Op} (sound : l.Sound) (regular : ∀ op ∈ ops, op.Regular)
    (keeps : Keeps e n ops l) (found : l.channel? e n = some c) (waits : w ∈ c.sender.parked) :
    (∃ c', (run ops l).value.channel? e n = some c' ∧ w ∈ c'.sender.parked) ∨
      (e, .reply w.ticket (.ok w.payload.length)) ∈ (run ops l).log := by
  induction ops generalizing l c with
  | nil => exact .inl ⟨c, found, waits⟩
  | cons op ops ih =>
    obtain ⟨known, runs⟩ := regular op List.mem_cons_self
    rw [value_run_cons, log_run_cons]
    rcases waits_apply sound runs keeps.1 found waits with ⟨c', here, still⟩ | answered
    · rcases ih (sound.apply known) (fun op mem => regular op (List.mem_cons_of_mem _ mem)) keeps.2
        here still with still | answered
      · exact .inl still
      · exact .inr (List.mem_append_right _ answered)
    · exact .inr (List.mem_append_left _ answered)

end Answers

end ReliableDatagram.Link
