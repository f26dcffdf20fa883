import ReliableDatagram.Proofs.Table.Words

/-!
# Generations

The generations that a table gives to its channels only grow, whatever the keys. So a handle, a key
with a generation, never means another channel than the one that it was given out for: once that one
is destroyed, the handle is stale for good.
-/

namespace ReliableDatagram.Table

open Channel

variable {t t' : Table} {key : Key} {now g : Nat} {op : Op} {c : Channel}

/-- Whether a table has no such channel. -/
def lacks (t : Table) (c : Channel) : Bool := (t.live? c.key c.generation).isNone

/-- The generations of the channels that are in the second table, but not in the first one. -/
def born (t t' : Table) : List Nat := (t'.channels.filter t.lacks).map Channel.generation

/-- The generations that are given out in the course of a run, to channels with any key. -/
def givenOut : List (Nat × Op) → Table → List Nat
  | [], _ => []
  | (now, op) :: ops, t =>
    let t' := (t.apply now op).value
    born t t' ++ givenOut ops t'

/-- Calls with a handle find no channel, and change nothing. -/
structure Stale (t : Table) (key : Key) (generation : Nat) : Prop where
  write : ∀ now w, t.perform now (.write key generation w) =
    ⟨(.none, t), [.reply w.ticket (.error (if t.config.maxPayloadLength < w.payload.length then
      .payloadTooLarge w.payload.length t.config.maxPayloadLength else .connectionClosed key))]⟩
  close : ∀ now, t.perform now (.close key generation) = ⟨(.closed false, t), []⟩
  stats : ∀ now, t.perform now (.channelStats key generation) = ⟨(.channelStats none, t), []⟩

/-- To connect gives the generation of the channel with the key, which is a new one only if there was
none. -/
def Connects (t : Table) (now : Nat) (key : Key) : Prop :=
  ∃ c t', (t.perform now (.connect key)).value = (.generation c.generation, t') ∧
    t'.find? key = some c ∧ (t.contains key = true → t' = t) ∧
    born t t' = if t.contains key then [] else [c.generation]

/-- What the generations of a table are good for after a run. -/
structure SafeHandles (ops : List (Nat × Op)) (start : Table) : Prop where
  ascending : (givenOut ops start).Pairwise (· < ·)
  distinct : (run ops start).value.channels.Pairwise fun c d => c.key ≠ d.key
  own : ∀ key c, (run ops start).value.find? key = some c ↔
    c ∈ (run ops start).value.channels ∧ c.key = key
  connects : ∀ now key, (run ops start).value.Connects now key
  /-- What was destroyed at some point of the run is not found any more at its end. -/
  stale : ∀ before between after key generation, ops = before ++ between ++ after →
    ((run before start).value.live? key generation).isSome →
    (run (before ++ between) start).value.live? key generation = none →
    (run ops start).value.Stale key generation

section Born

theorem lacks_eq_true_iff : t.lacks c = true ↔ t.live? c.key c.generation = none := by
  simp [lacks]

/-- Whom a step brings into the table has the next generation and the key that the step is about. -/
theorem newborn (settled : t.Settled) (mem : c ∈ (t.apply now op).value.channels)
    (new : t.lacks c = true) :
    t.find? c.key = none ∧ c.generation = t.nextGeneration ∧ op.target? = some c.key ∧
      t.nextGeneration < (t.apply now op).value.nextGeneration := by
  have found : (t.apply now op).value.find? c.key = some c :=
    find?_of_mem (settled_apply settled now op).order.keys mem
  have passage := passage_apply settled now op c.key
  rw [found] at passage
  obtain ⟨_, ⟨missing, next⟩ | ⟨d, old, same⟩⟩ := passage.survivor
  · exact ⟨missing, next, opens_of_apply settled.order missing found⟩
  · rw [lacks_eq_true_iff, same, live?_self old] at new
    cases new

theorem mem_born (settled : t.Settled) (mem : g ∈ born t (t.apply now op).value) :
    g = t.nextGeneration ∧ g < (t.apply now op).value.nextGeneration := by
  obtain ⟨c, there, rfl⟩ := List.mem_map.mp mem
  obtain ⟨there, new⟩ := List.mem_filter.mp there
  obtain ⟨_, next, _, later⟩ := newborn settled there new
  exact ⟨next, by omega⟩

/-- A step brings one channel into the table at most. -/
theorem born_ascending (settled : t.Settled) (now : Nat) (op : Op) :
    (born t (t.apply now op).value).Pairwise (· < ·) := by
  have distinct := (settled_apply settled now op).order.keys.filter t.lacks
  refine List.pairwise_map.mpr (distinct.imp_of_mem fun {c d} cMem dMem other => ?_)
  obtain ⟨cThere, cNew⟩ := List.mem_filter.mp cMem
  obtain ⟨dThere, dNew⟩ := List.mem_filter.mp dMem
  have target := (newborn settled cThere cNew).2.2.1
  have target' := (newborn settled dThere dNew).2.2.1
  exact absurd (Option.some.inj (target.symm.trans target')) other

theorem born_self (order : t.Ordered) : born t t = [] := by
  refine List.map_eq_nil_iff.mpr (List.filter_eq_nil_iff.mpr fun c mem new => ?_)
  rw [lacks_eq_true_iff, live?_self (find?_of_mem order.keys mem)] at new
  cases new

theorem born_of_begin (settled : t.Settled) (missing : t.find? key = none)
    (found : (t.apply now op).value.find? key = some c) :
    born t (t.apply now op).value = [c.generation] := by
  obtain ⟨mem, rfl⟩ := mem_of_find? found
  have new : t.lacks c = true := lacks_eq_true_iff.mpr (live?_of_missing missing c.generation)
  have here : c ∈ (t.apply now op).value.channels.filter t.lacks := List.mem_filter.mpr ⟨mem, new⟩
  have distinct := (settled_apply settled now op).order.keys.filter t.lacks
  have only : ∀ d ∈ (t.apply now op).value.channels.filter t.lacks, d = c := by
    intro d there
    obtain ⟨there, new'⟩ := List.mem_filter.mp there
    have target := (newborn settled mem new).2.2.1
    have target' := (newborn settled there new').2.2.1
    have same : d.key = c.key := Option.some.inj (target'.symm.trans target)
    have found' : (t.apply now op).value.find? d.key = some d :=
      find?_of_mem (settled_apply settled now op).order.keys there
    rw [same] at found'
    exact Option.some.inj (found'.symm.trans found)
  unfold born
  generalize (t.apply now op).value.channels.filter t.lacks = cs at here distinct only
  have all := List.eq_replicate_of_mem only
  rw [all] at distinct here ⊢
  rcases List.pairwise_replicate.mp distinct with single | other
  · have some := (List.mem_replicate.mp here).1
    rw [show cs.length = 1 by omega]
    rfl
  · exact absurd rfl other

theorem givenOut_ge (ops : List (Nat × Op)) (settled : t.Settled) :
    ∀ g ∈ givenOut ops t, t.nextGeneration ≤ g := by
  induction ops generalizing t with
  | nil => nofun
  | cons step ops ih =>
    obtain ⟨now, op⟩ := step
    intro g mem
    rcases List.mem_append.mp mem with new | later
    · exact Nat.le_of_eq (mem_born settled new).1.symm
    · exact Nat.le_trans (nextGeneration_le t now op) (ih (settled_apply settled now op) g later)

theorem givenOut_ascending (ops : List (Nat × Op)) (settled : t.Settled) :
    (givenOut ops t).Pairwise (· < ·) := by
  induction ops generalizing t with
  | nil => exact .nil
  | cons step ops ih =>
    obtain ⟨now, op⟩ := step
    have settled' := settled_apply settled now op
    refine List.pairwise_append.mpr ⟨born_ascending settled now op, ih settled', ?_⟩
    intro g new g' later
    have := (mem_born settled new).2
    have := givenOut_ge ops settled' g' later
    omega

end Born

section Run

@[simp] theorem value_run_append (ops ops' : List (Nat × Op)) (t : Table) :
    (run (ops ++ ops') t).value = (run ops' (run ops t).value).value := by
  induction ops generalizing t with
  | nil => rfl
  | cons step ops ih => exact ih _

theorem nextGeneration_run_le (ops : List (Nat × Op)) (t : Table) :
    t.nextGeneration ≤ (run ops t).value.nextGeneration := by
  induction ops generalizing t with
  | nil => exact Nat.le_refl _
  | cons step ops ih => exact Nat.le_trans (nextGeneration_le t step.1 step.2) (ih _)

/-- What a run destroys does not come back, whatever is created with its key later on. -/
theorem gone_of_destroyed (settled : t.Settled) (between after : List (Nat × Op))
    (lived : (t.live? key g).isSome) (gone : (run between t).value.live? key g = none) :
    (run (between ++ after) t).value.live? key g = none := by
  have earlier : g < t.nextGeneration := Nat.lt_of_not_le fun unborn => by
    simp [settled.unborn unborn] at lived
  rw [value_run_append]
  exact (life_of_gone after (settled_run between settled)
    (Nat.lt_of_lt_of_le earlier (nextGeneration_run_le between t)) gone).2

end Run

section Handles

theorem stale_of_gone (gone : t.live? key g = none) : t.Stale key g := by
  constructor
  · intro now w
    simp only [perform, write, gone]
    split <;> rfl
  · intro now
    simp only [perform, close, gone]
    rfl
  · intro now
    simp only [perform, channelStats?, gone]
    rfl

theorem connects (settled : t.Settled) (now : Nat) (key : Key) : t.Connects now key := by
  cases found : t.find? key with
  | some c =>
    have there : t.contains key = true := by simp [contains, found]
    refine ⟨c, t, by simp [perform, connect, found], found, fun _ => rfl, ?_⟩
    rw [there, born_self settled.order]
    rfl
  | none =>
    have missing : t.contains key = false := by simp [contains, found]
    generalize create : ((t.create key now).1.ping (t.context now)).value = c
    have done : (t.perform now (.connect key)).value =
        (.generation c.generation, (t.create key now).2.put c) := by
      simp only [perform, connect, found, ← create]
      rfl
    have own : c.key = key := by
      rw [← create]
      exact (moves_ping (t.context now) (t.create key now).1 .ping (.inl rfl)).key
    have there : ((t.create key now).2.put c).find? key = some c := by simp [own]
    refine ⟨c, _, done, there, fun here => by simp [missing] at here, ?_⟩
    rw [missing]
    have after : (t.apply now (.request (.connect key))).value = (t.create key now).2.put c :=
      congrArg Prod.snd done
    rw [← after] at there ⊢
    exact born_of_begin settled found there

end Handles

/-- In every run of a new table, the generations that it gives out grow from one channel to the next.
There is one channel for each key at most, stored with its key, connecting gives its generation, and
the handle of a channel that was destroyed finds nothing any more, whatever was created since. -/
theorem handles_safe (config : Config) (clock : Clock) (ops : List (Nat × Op)) :
    SafeHandles ops { config, clock } := by
  have fresh : Settled { config, clock } := settled_empty config clock
  have settled := settled_run ops fresh
  constructor
  · exact givenOut_ascending ops fresh
  · exact settled.order.keys
  · intro key c
    constructor
    · exact mem_of_find?
    · rintro ⟨mem, rfl⟩
      exact find?_of_mem settled.order.keys mem
  · exact connects settled
  · rintro before between after key g rfl lived gone
    have early := settled_run before fresh
    rw [value_run_append] at gone
    rw [List.append_assoc, value_run_append]
    exact stale_of_gone (gone_of_destroyed early between after lived gone)

/-- A key that is opened again after it was closed, with another key in between. -/
example :
    let key (channel : UInt8) : Key := ⟨⟨.v4 1, 1⟩, channel⟩
    let ops : List Op := [.request (.connect (key 3)), .request (.close (key 3) 1),
      .request (.connect (key 5)), .request (.connect (key 3))]
    let t : Table := { config := {}, clock := ⟨0, 0⟩ }
    givenOut (ops.map (0, ·)) t = [1, 2, 3] ∧
      (run (ops.map (0, ·)) t).value.live? (key 3) 1 = none ∧
      ((run (ops.map (0, ·)) t).value.live? (key 3) 3).isSome := by decide +kernel

end ReliableDatagram.Table
