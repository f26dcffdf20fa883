import ReliableDatagram.Proofs.Table.Concern

/-!
# What a table has its channels do

A channel that is in a table after a step was spared by the step, or it did one operation in it, maybe
right after it was created. Hence what lasts through every operation of a channel holds of all
channels in every run of a table.
-/

namespace ReliableDatagram.Table

open Channel

variable {ctx : Context} {key : Key} {generation now : Nat} {c? : Option Channel} {c c' : Channel}
variable {t : Table} {op : Op}

/-- What a step did with a channel that it leaves in the table, and what it logged with it. -/
inductive Deed (ctx : Context) (key : Key) (generation : Nat) (c? : Option Channel)
    (q? : Option Concern) (log : List Effect) (c' : Channel) : Prop
  | spare (found : c? = some c')
      (refusals : ∀ e ∈ log, ∃ ticket error, e = .reply ticket (.error error))
      (unheard : ∀ p, q? ≠ some (.packet p))
  | act {q : Concern} {cop : Channel.Op} {c : Channel} (asked : q? = some q) (asks : q.Asks cop)
      (begun : c? = some c ∨ c? = none ∧ c = Channel.create key generation ctx.config ctx.now)
      (lasts : cop = .tick → (c.tick ctx).value.2 = none) (done : c.apply ctx cop = ⟨c', log⟩)

theorem deed_packet {p : Packet}
    (left : (serve ctx key generation c? (.packet p)).value = some c') :
    Deed ctx key generation c? (some (.packet p))
      (serve ctx key generation c? (.packet p)).log c' := by
  cases c? with
  | some c =>
    obtain rfl := Option.some.inj left
    exact .act rfl .packet (.inl rfl) nofun rfl
  | none =>
    simp only [serve] at left ⊢
    split at left
    · next opens =>
      rw [if_pos opens]
      obtain rfl := Option.some.inj left
      exact .act rfl .packet (.inr ⟨rfl, rfl⟩) nofun rfl
    · cases left

theorem deed_connect (left : (serve ctx key generation c? .connect).value = some c') :
    Deed ctx key generation c? (some .connect) (serve ctx key generation c? .connect).log c' := by
  cases c? with
  | some c =>
    obtain rfl := Option.some.inj left
    exact .spare rfl nofun nofun
  | none =>
    obtain rfl := Option.some.inj left
    exact .act rfl .connect (.inr ⟨rfl, rfl⟩) nofun rfl

theorem deed_write {current : Bool} {w : ParkedWrite}
    (left : (serve ctx key generation c? (.write current w)).value = some c') :
    Deed ctx key generation c? (some (.write current w))
      (serve ctx key generation c? (.write current w)).log c' := by
  have refusal (error : TransportError) : ∀ e ∈ [Effect.reply w.ticket (.error error)],
      ∃ ticket error, e = .reply ticket (.error error) :=
    fun e mem => ⟨_, _, List.mem_singleton.mp mem⟩
  have unheard (p : Packet) : some (Concern.write current w) ≠ some (.packet p) := nofun
  have lasts (c : Channel) : Channel.Op.write w = .tick → (c.tick ctx).value.2 = none := nofun
  simp only [serve] at left ⊢
  split
  · next long =>
    rw [if_pos long] at left
    exact .spare left (refusal _) unheard
  · next fits =>
    rw [if_neg fits] at left
    have fits := Nat.le_trans (Nat.le_of_not_lt fits) (maxPayloadLength_le ctx.config)
    cases live : c?.filter fun _ => current with
    | none =>
      rw [live] at left
      exact .spare left (refusal _) unheard
    | some c =>
      rw [live] at left
      obtain rfl := Option.some.inj left
      exact .act rfl (.write fits) (.inl (Option.filter_eq_some_iff.mp live).1) (lasts c) rfl

theorem deed_tick (left : (serve ctx key generation c? .tick).value = some c') :
    Deed ctx key generation c? (some .tick) (serve ctx key generation c? .tick).log c' := by
  cases c? with
  | none => cases left
  | some c =>
    have left : (tickOne ctx c).value = some c' := left
    show Deed ctx key generation (some c) (some .tick) (tickOne ctx c).log c'
    cases outcome : (c.tick ctx).value.2 with
    | none =>
      rw [tickOne_kept outcome] at left ⊢
      obtain rfl := Option.some.inj left
      exact .act rfl .tick (.inl rfl) (fun _ => outcome) rfl
    | some reason =>
      rw [tickOne_gone outcome] at left
      cases left

theorem deed_close {current : Bool}
    (left : (serve ctx key generation c? (.close current)).value = some c') :
    Deed ctx key generation c? (some (.close current))
      (serve ctx key generation c? (.close current)).log c' := by
  have silent : ∀ e ∈ [], ∃ ticket error, e = Effect.reply ticket (.error error) := nofun
  have unheard (p : Packet) : some (Concern.close current) ≠ some (.packet p) := nofun
  simp only [serve] at left ⊢
  cases live : c?.filter fun _ => current with
  | none =>
    rw [live] at left
    exact .spare left silent unheard
  | some c =>
    rw [live] at left
    cases left

theorem deed_serve {q : Concern} (left : (serve ctx key generation c? q).value = some c') :
    Deed ctx key generation c? (some q) (serve ctx key generation c? q).log c' := by
  cases q with
  | packet p => exact deed_packet left
  | connect => exact deed_connect left
  | write current w => exact deed_write left
  | close current => exact deed_close left
  | tick => exact deed_tick left
  | shutdown reason => cases left

theorem deed_part (left : (t.part now key op).value = some c') :
    Deed (t.context now) key t.nextGeneration (t.find? key) (t.concern? key op)
      (t.part now key op).log c' := by
  cases concerned : t.concern? key op with
  | none =>
    rw [part_of_unconcerned concerned] at left ⊢
    exact .spare left nofun nofun
  | some q =>
    rw [part_of_concerned concerned] at left ⊢
    exact deed_serve left

section Lasting

variable {P : Channel → Prop}

/-- A step keeps the configuration and the clock. -/
theorem setup_apply (t : Table) (now : Nat) (op : Op) :
    (t.apply now op).value.config = t.config ∧ (t.apply now op).value.clock = t.clock := by
  cases op with
  | shutdown reason => exact ⟨rfl, rfl⟩
  | request r => exact ⟨view_perform (fun _ _ _ _ => rfl) t now r, view_perform (fun _ _ _ _ => rfl) t now r⟩

theorem ordered_run (ops : List (Nat × Op)) (order : t.Ordered) : (run ops t).value.Ordered := by
  induction ops generalizing t with
  | nil => exact order
  | cons step ops ih => exact ih (ordered_apply order step.1 step.2)

/-- Channels have the property when they are created, and no operation takes it from them. -/
structure Lasting (config : Config) (clock : Clock) (P : Channel → Prop) : Prop where
  create : ∀ key generation now, P (Channel.create key generation config now)
  apply : ∀ now (cop : Channel.Op) (c : Channel), P c → P (c.apply ⟨now, config, clock⟩ cop).value

theorem Lasting.channels_apply (lasting : Lasting t.config t.clock P) (order : t.Ordered)
    (holds : ∀ key c, t.find? key = some c → P c) (now : Nat) (op : Op) :
    ∀ key c, (t.apply now op).value.find? key = some c → P c := by
  intro key c' found
  rw [find?_apply order] at found
  cases deed_part found with
  | spare old => exact holds key _ old
  | @act q cop c _ _ begun _ done =>
    have after : c' = (c.apply (t.context now) cop).value := by rw [done]
    rw [after]
    refine lasting.apply now cop c ?_
    rcases begun with old | ⟨_, rfl⟩
    · exact holds key c old
    · exact lasting.create _ _ _

theorem Lasting.channels_run (ops : List (Nat × Op)) (lasting : Lasting t.config t.clock P)
    (order : t.Ordered) (holds : ∀ key c, t.find? key = some c → P c) :
    ∀ key c, (run ops t).value.find? key = some c → P c := by
  induction ops generalizing t with
  | nil => exact holds
  | cons step ops ih =>
    obtain ⟨now, op⟩ := step
    obtain ⟨config, clock⟩ := setup_apply t now op
    refine ih ?_ (ordered_apply order now op) (lasting.channels_apply order holds now op)
    rwa [config, clock]

/-- In every run of a new table, all channels have what lasts. -/
theorem Lasting.channels {config : Config} {clock : Clock} (lasting : Lasting config clock P)
    (ops : List (Nat × Op)) : ∀ c ∈ (run ops { config, clock }).value.channels, P c := by
  intro c mem
  have order := ordered_empty config clock
  have found := find?_of_mem (ordered_run ops order).keys mem
  exact lasting.channels_run ops order (fun key c found => nomatch found) c.key c found

end Lasting

end ReliableDatagram.Table
