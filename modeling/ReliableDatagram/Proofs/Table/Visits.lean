import ReliableDatagram.Proofs.Table.Concern

/-!
# Ticks in any order

A tick may visit the channels in any order, and it may put off the end of those that give up until
all were visited. The table that is left is always the same, and so is what one key sees of the
log: `tickIn_value` and `filter_tickIn`.
-/

namespace ReliableDatagram.Table

open Channel

/-- What is left to do for a channel after its visit: it is destroyed if it gave up. -/
def farewell (ctx : Context) (c : Channel) : List Effect :=
  match (c.tick ctx).value.2 with
  | some reason => ((c.tick ctx).value.1.destroy reason).log
  | none => []

/-- A tick that visits the channels in the given order and destroys those that give up after the
last visit. -/
def tickIn (t : Table) (now : Nat) (visits : List Channel) : Logged Effect Table where
  value :=
    let kept := visits.filterMap fun c => (tickOne (t.context now) c).value
    { t with channels := kept.foldr insertByKey [] }
  log :=
    (visits.flatMap fun c => (c.tick (t.context now)).log) ++
      visits.flatMap (farewell (t.context now))

/-- The runs of a table whose ticks may visit the channels in any order. -/
inductive Runs : List (Nat × Op) → Table → List Effect → Table → Prop
  | nil {t : Table} : Runs [] t [] t
  | step {now : Nat} {op : Op} {ops : List (Nat × Op)} {t t' : Table} {log : List Effect}
      (rest : Runs ops (t.apply now op).value log t') :
      Runs ((now, op) :: ops) t ((t.apply now op).log ++ log) t'
  | tick {now : Nat} {visits : List Channel} {ops : List (Nat × Op)} {t t' : Table}
      {log : List Effect} (visited : visits.Perm t.channels)
      (rest : Runs ops (t.tickIn now visits).value log t') :
      Runs ((now, .request .tick) :: ops) t ((t.tickIn now visits).log ++ log) t'

variable {t t' : Table} {key : Key} {now : Nat} {visits : List Channel} {ctx : Context}

theorem runs_run (ops : List (Nat × Op)) (t : Table) : Runs ops t (run ops t).log (run ops t).value := by
  induction ops generalizing t with
  | nil => exact .nil
  | cons step ops ih => exact .step (ih _)

section Value

/-- Nobody behind the first channel has its key. -/
theorem find?_tail_eq_none {c : Channel} {cs : List Channel}
    (keys : ∀ d ∈ cs, c.key ≠ d.key) : cs.find? (·.key == c.key) = none :=
  List.find?_eq_none.mpr fun d mem => by simpa using (keys d mem).symm

/-- A listing in key order is known by what is found under each key. -/
theorem eq_of_find?_eq {cs ds : List Channel}
    (first : cs.Pairwise fun c d => c.key.before d.key = true)
    (second : ds.Pairwise fun c d => c.key.before d.key = true)
    (same : ∀ key, cs.find? (·.key == key) = ds.find? (·.key == key)) : cs = ds := by
  induction cs generalizing ds with
  | nil =>
    cases ds with
    | nil => rfl
    | cons d ds => simpa using same d.key
  | cons c cs ih =>
    cases ds with
    | nil => simpa using same c.key
    | cons d ds =>
      obtain ⟨firstHead, firstTail⟩ := List.pairwise_cons.mp first
      obtain ⟨secondHead, secondTail⟩ := List.pairwise_cons.mp second
      have apart {x y : Channel} (order : x.key.before y.key = true) : x.key ≠ y.key := fun same => by
        simp [Key.before, same] at order
      have heads : c = d := by
        have here := same c.key
        rw [List.find?_cons_of_pos (by simp)] at here
        rcases List.mem_cons.mp (List.mem_of_find?_eq_some here.symm) with eq | behind
        · exact eq
        · have there := same d.key
          rw [List.find?_cons_of_pos (by simp) (l := ds)] at there
          rcases List.mem_cons.mp (List.mem_of_find?_eq_some there) with eq | ahead
          · exact eq.symm
          · exact absurd rfl (apart (Key.before_trans (secondHead c behind) (firstHead d ahead)))
      subst heads
      congr 1
      refine ih firstTail secondTail fun key => ?_
      by_cases own : c.key = key
      · subst own
        rw [find?_tail_eq_none fun d mem => apart (firstHead d mem),
          find?_tail_eq_none fun d mem => apart (secondHead d mem)]
      · have both := same key
        rwa [List.find?_cons_of_neg (by simpa using own),
          List.find?_cons_of_neg (by simpa using own)] at both

theorem find?_foldr_insertByKey (channels : List Channel) (key : Key) :
    (channels.foldr insertByKey []).find? (·.key == key) = channels.find? (·.key == key) := by
  induction channels with
  | nil => rfl
  | cons c cs ih =>
    rw [List.foldr_cons, find?_insertByKey, ih]
    by_cases own : c.key = key
    · rw [if_pos own, List.find?_cons_of_pos (by simpa using own)]
    · rw [if_neg own, List.find?_cons_of_neg (by simpa using own)]

theorem foldr_insertByKey_order (channels : List Channel) :
    (channels.foldr insertByKey []).Pairwise fun c d => c.key.before d.key = true := by
  induction channels with
  | nil => exact .nil
  | cons c cs ih => exact insertByKey_order ih

theorem find?_filterMap_tickOne (keys : visits.Pairwise fun c d => c.key ≠ d.key) (key : Key) :
    (visits.filterMap fun c => (tickOne ctx c).value).find? (·.key == key) =
      (visits.find? (·.key == key)).bind fun c => (tickOne ctx c).value := by
  induction visits with
  | nil => rfl
  | cons c cs ih =>
    obtain ⟨first, rest⟩ := List.pairwise_cons.mp keys
    by_cases own : c.key = key
    · subst own
      have later := find?_tail_eq_none first
      have rest := ih rest
      rw [later] at rest
      rw [List.find?_cons_of_pos (by simp)]
      rcases tickOne_value ctx c with kept | gone
      · simp only [List.filterMap_cons, kept]
        rw [List.find?_cons_of_pos (by simp [key_tick])]
        exact kept.symm
      · simp only [List.filterMap_cons, gone]
        exact rest.trans gone.symm
    · rw [List.find?_cons_of_neg (by simpa using own), ← ih rest]
      rcases tickOne_value ctx c with kept | gone
      · simp only [List.filterMap_cons, kept]
        rw [List.find?_cons_of_neg (by simpa [key_tick] using own)]
      · simp only [List.filterMap_cons, gone]

/-- The order of the visits makes no difference to the table. -/
theorem tickIn_value (order : t.Ordered) (visited : visits.Perm t.channels) (now : Nat) :
    (t.tickIn now visits).value = (t.tick now).value := by
  have keys : visits.Pairwise fun c d => c.key ≠ d.key :=
    visited.symm.pairwise order.keys fun other => other.symm
  have channels : (t.tickIn now visits).value.channels = (t.tick now).value.channels := by
    refine eq_of_find?_eq (foldr_insertByKey_order _) (tickAll_order order) fun key => ?_
    show (List.foldr insertByKey [] _).find? (·.key == key) =
      (tickAll (t.context now) t.channels).value.find? (·.key == key)
    rw [find?_foldr_insertByKey, find?_filterMap_tickOne keys, find?_of_perm visited order.keys,
      find?_tickAll order]
  exact congrArg (fun channels => { t with channels }) channels

theorem Runs.value {ops : List (Nat × Op)} {log : List Effect} (runs : Runs ops t log t')
    (order : t.Ordered) : t' = (run ops t).value := by
  induction runs with
  | nil => rfl
  | step rest ih => exact ih (ordered_apply order _ _)
  | @tick now visits ops t t' log visited rest ih =>
    have value := tickIn_value order visited now
    rw [value] at ih
    exact ih (ordered_apply order now (.request .tick))

end Value

theorem log_tickOne (ctx : Context) (c : Channel) :
    (tickOne ctx c).log = (c.tick ctx).log ++ farewell ctx c := by
  cases outcome : (c.tick ctx).value.2 with
  | none => simp [tickOne_kept outcome, farewell, outcome]
  | some reason => simp [tickOne_gone outcome, farewell, outcome]

/-- The order of the visits makes no difference to what one key sees of the log. -/
theorem filter_tickIn (order : t.Ordered) (visited : visits.Perm t.channels) {f : Effect → Bool}
    (foreign : ∀ k ≠ key, ∀ e ∈ (t.part now k (.request .tick)).log, f e = false) :
    (t.tickIn now visits).log.filter f = (t.part now key (.request .tick)).log.filter f := by
  have part_log (k : Key) : (t.part now k (.request .tick)).log =
      ((t.find? k).map fun c => (tickOne (t.context now) c).log).getD [] := by
    simp only [part, concern?, serve]
    cases t.find? k <;> rfl
  have foreign (c : Channel) (found : t.find? c.key = some c) (other : c.key ≠ key) :
      ∀ e ∈ (c.tick (t.context now)).log ++ farewell (t.context now) c, f e = false := by
    intro e logged
    refine foreign c.key other e ?_
    rw [part_log, found]
    simpa [log_tickOne] using logged
  show ((visits.flatMap _) ++ visits.flatMap _).filter f = _
  rw [List.filter_append,
    filter_flatMap visited order fun c found other e logged =>
      foreign c found other e (List.mem_append_left _ logged),
    filter_flatMap visited order fun c found other e logged =>
      foreign c found other e (List.mem_append_right _ logged),
    part_log, ← List.filter_append]
  cases t.find? key with
  | none => rfl
  | some c => simp [log_tickOne]

end ReliableDatagram.Table
