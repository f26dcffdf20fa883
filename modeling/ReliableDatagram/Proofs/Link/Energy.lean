import Mathlib.Algebra.BigOperators.Group.List.Basic
import Mathlib.Algebra.GroupWithZero.Nat
import ReliableDatagram.Proofs.Channel.Backlog
import ReliableDatagram.Proofs.Channel.Energy
import ReliableDatagram.Proofs.Link.Calm
import ReliableDatagram.Proofs.Table.Concern

/-!
# Deliveries come to an end

A link has energy in the datagrams that fly and in the writes that are parked. Every delivery takes
some of it out of the link, in whatever state its tables are and whichever datagram is delivered. So
with neither ticks nor new writes there are at most three deliveries for each datagram and each parked
write, and then the link falls silent: `deliveries_le`.
-/

namespace ReliableDatagram

namespace Table

open Channel

variable {t : Table}

def energy (t : Table) : Nat := (t.channels.map Channel.energy).sum

/-- The energy of a table is in its parked writes. -/
theorem energy_eq_parked (t : Table) : t.energy = 3 * t.parkedTickets.length := by
  unfold energy parkedTickets
  induction t.channels with
  | nil => rfl
  | cons c cs ih =>
    rw [List.map_cons, List.sum_cons, ih, List.flatMap_cons, List.length_append, List.length_map,
      Channel.energy]
    omega

theorem energy_insertByKey (c : Channel) {channels : List Channel}
    (order : channels.Pairwise fun c d => c.key.before d.key = true) :
    ((insertByKey c channels).map Channel.energy).sum +
        ((channels.find? (·.key == c.key)).map Channel.energy).getD 0 =
      (channels.map Channel.energy).sum + c.energy := by
  induction channels with
  | nil => simp [insertByKey]
  | cons d ds ih =>
    obtain ⟨first, rest⟩ := List.pairwise_cons.mp order
    unfold insertByKey
    split
    · next same =>
      rw [List.find?_cons_of_pos (by simp [same])]
      simp only [List.map_cons, List.sum_cons, Option.map_some, Option.getD_some]
      omega
    · next other =>
      rw [List.find?_cons_of_neg (by simpa using Ne.symm other)]
      split
      · next before =>
        have missing : ds.find? (·.key == c.key) = none := by
          refine List.find?_eq_none.mpr fun f mem => ?_
          have behind := first f mem
          intro same
          simp only [beq_iff_eq] at same
          rw [same] at behind
          simp only [Key.before, decide_eq_true_eq] at before behind
          omega
        simp only [missing, List.map_cons, List.sum_cons, Option.map_none, Option.getD_none]
        omega
      · have := ih rest
        simp only [List.map_cons, List.sum_cons]
        omega

/-- A channel takes the place of the one with its key, if there is one. -/
theorem energy_put (order : t.Ordered) (c : Channel) :
    (t.put c).energy + ((t.find? c.key).map Channel.energy).getD 0 = t.energy + c.energy :=
  energy_insertByKey c order

/-- A channel that is the one with its key, or that is new, hears a packet. -/
theorem energy_hear (order : t.Ordered) (ctx : Context) {c : Channel} (p : Packet)
    (replaces : ((t.find? c.key).map Channel.energy).getD 0 = c.energy) :
    logEnergy (c.onPacket ctx p).log + (t.put (c.onPacket ctx p).value).energy <
      p.header.kind.energy + t.energy := by
  have spent := energy_onPacket ctx c p
  have put := energy_put order (c.onPacket ctx p).value
  rw [(moves_onPacket ctx c p).key, replaces] at put
  omega

/-- A datagram has more energy than all that it leads to. -/
theorem energy_onDatagram (order : t.Ordered) (now : Nat) (sender : SocketAddr) (bytes : Bytes) :
    logEnergy (t.onDatagram now sender bytes).log + (t.onDatagram now sender bytes).value.energy <
      datagramEnergy bytes + t.energy := by
  have ignored : 0 + t.energy < datagramEnergy bytes + t.energy :=
    Nat.add_lt_add_right (datagramEnergy_pos bytes) _
  unfold onDatagram
  split
  · exact ignored
  · next p parsed =>
    have cost : datagramEnergy bytes = p.header.kind.energy := by
      simp only [datagramEnergy, parsed]
    dsimp only
    split
    · next c found =>
      rw [cost]
      refine energy_hear order _ p ?_
      rw [(mem_of_find? found).2, found]
      rfl
    · next missing =>
      split
      · have order' : (t.create ⟨sender, p.header.channel⟩ now).2.Ordered := order
        have missing : (t.create ⟨sender, p.header.channel⟩ now).2.find?
            (t.create ⟨sender, p.header.channel⟩ now).1.key = none := missing
        rw [cost]
        exact energy_hear order' _ p
          (congrArg (fun c? => (Option.map Channel.energy c?).getD 0) missing)
      · exact ignored

end Table

namespace Link

variable {l : Link} {e : End} {i : Nat}

def airEnergy (flying : List Bytes) : Nat := (flying.map datagramEnergy).sum

theorem airEnergy_le (flying : List Bytes) : airEnergy flying ≤ 3 * flying.length := by
  induction flying with
  | nil => exact Nat.le_refl 0
  | cons bytes flying ih =>
    have first := datagramEnergy_le bytes
    unfold airEnergy at ih ⊢
    rw [List.map_cons, List.sum_cons, List.length_cons]
    omega

theorem airEnergy_eraseIdx {flying : List Bytes} (here : i < flying.length) :
    datagramEnergy flying[i] + airEnergy (flying.eraseIdx i) = airEnergy flying := by
  have same := (List.getElem_cons_eraseIdx_perm here).map datagramEnergy
  exact same.sum_eq

def Side.energy (s : Side) : Nat := airEnergy s.flying + s.table.energy

def energy (l : Link) : Nat := (l.side .a).energy + (l.side .b).energy

theorem energy_eq (l : Link) (e : End) : l.energy = (l.side e).energy + (l.side e.other).energy := by
  cases e with
  | a => rfl
  | b => exact Nat.add_comm _ _

/-- Each table lists its channels in strict key order, so that no two have the same key. -/
def Ordered (l : Link) : Prop := ∀ e, (l.side e).table.Ordered

theorem Sound.ordered (sound : l.Sound) : l.Ordered := fun e => (sound e).order

theorem Ordered.deliver (order : l.Ordered) (e : End) (i : Nat) :
    (l.apply (.deliver e i)).value.Ordered := by
  have prepared (x : End) : ((l.prepare (.deliver e i)).side x).table.Ordered := by
    show ((l.lose e i).2.side x).table.Ordered
    rw [table_lose]
    exact order x
  cases asked : l.request? (.deliver e i) with
  | none =>
    rw [apply_of_no_request asked]
    exact prepared
  | some request =>
    intro x
    rw [apply_of_request asked]
    show (((l.prepare (.deliver e i)).perform request.1 request.2).value.2.side x).table.Ordered
    simp only [perform, launch, side_setSide]
    split
    · exact Table.ordered_apply (prepared request.1) _ (.request request.2)
    · exact prepared x

/-- Every delivery takes energy out of the link. -/
theorem energy_deliver (order : l.Ordered) (flies : i < (l.side e).flying.length) :
    (l.apply (.deliver e i)).value.energy < l.energy := by
  have asked : l.request? (.deliver e i) =
      some (e.other, .datagram (l.side e).addr (l.side e).flying[i]) := by
    simp [request?, List.getElem?_eq_getElem flies]
  have spent :=
    Table.energy_onDatagram (order e.other) l.now (l.side e).addr (l.side e).flying[i]
  have taken := airEnergy_eraseIdx flies
  have sender : ((l.apply (.deliver e i)).value.side e).energy =
      airEnergy ((l.side e).flying.eraseIdx i) + (l.side e).table.energy := by
    rw [apply_of_request asked]
    show (((l.lose e i).2.perform e.other _).value.2.side e).energy = _
    have other := side_setSide_other (l.lose e i).2 e.other
    rw [End.other_other] at other
    simp only [perform, launch, other]
    simp only [lose, side_setSide_self, Side.energy]
  have receiver : ((l.apply (.deliver e i)).value.side e.other).energy =
      airEnergy (l.side e.other).flying +
        (logEnergy ((l.side e.other).table.onDatagram l.now (l.side e).addr
          (l.side e).flying[i]).log +
        ((l.side e.other).table.onDatagram l.now (l.side e).addr (l.side e).flying[i]).value.energy) :=
    by
    rw [apply_of_request asked, ← sum_datagramEnergy]
    show (((l.lose e i).2.perform e.other _).value.2.side e.other).energy = _
    simp only [perform, launch, side_setSide_self, lose, side_setSide_other, now_setSide, Side.energy,
      airEnergy, List.map_append, List.sum_append, Nat.add_assoc]
    rfl
  rw [energy_eq _ e, energy_eq l e, sender, receiver]
  unfold Side.energy
  omega

section Drains

/-- The oldest datagram that flies from an end is delivered, or time passes. -/
def Op.Drains (l : Link) : Op → Prop
  | .pass _ => True
  | .deliver e i => i = 0 ∧ (l.side e).flying ≠ []
  | _ => False

/-- All datagrams in flight are delivered in order, in any order of the two ends and at any times,
until nothing flies. -/
def Drains : List Op → Link → Prop
  | [], l => l.isQuiet = true
  | op :: ops, l => op.Drains l ∧ Drains ops (l.apply op).value

instance instDecidableOpDrains (l : Link) : (op : Op) → Decidable (op.Drains l)
  | .pass _ => .isTrue trivial
  | .deliver e i => inferInstanceAs (Decidable (i = 0 ∧ (l.side e).flying ≠ []))
  | .connect _ _ | .write _ _ _ _ | .close _ _ _ | .tick _ | .copy _ _ | .lose _ _
  | .restart _ _ => .isFalse not_false

instance instDecidableDrains : (ops : List Op) → (l : Link) → Decidable (Drains ops l)
  | [], l => inferInstanceAs (Decidable (l.isQuiet = true))
  | op :: ops, l =>
    have := instDecidableDrains ops (l.apply op).value
    inferInstanceAs (Decidable (_ ∧ _))

/-- Whatever was delivered before, the deliveries can be carried on until nothing flies, and that
need not take time. -/
theorem Ordered.drains (order : l.Ordered) :
    ∃ deliveries, Drains deliveries l ∧ (run deliveries l).value.now = l.now := by
  induction size : l.energy using Nat.strongRecOn generalizing l with
  | ind size ih =>
    subst size
    cases quiet : l.isQuiet with
    | true => exact ⟨[], quiet, rfl⟩
    | false =>
      have flies : ∃ e, (l.side e).flying ≠ [] := by
        by_cases none : l.a.flying = []
        · refine ⟨.b, fun none' => ?_⟩
          have none' : l.b.flying = [] := none'
          simp [isQuiet, none, none'] at quiet
        · exact ⟨.a, none⟩
      obtain ⟨e, flies⟩ := flies
      have less := energy_deliver order (List.length_pos_iff.mpr flies)
      obtain ⟨deliveries, drains, still⟩ := ih _ less (order.deliver e 0) rfl
      exact ⟨.deliver e 0 :: deliveries, ⟨⟨rfl, flies⟩, drains⟩, still.trans (now_deliver l e 0)⟩

theorem exists_drains (sound : l.Sound) :
    ∃ deliveries, Drains deliveries l ∧ (run deliveries l).value.now = l.now :=
  sound.ordered.drains

end Drains

section Delivers

/-- A datagram that flies is delivered, or time passes. -/
def Op.Delivers (l : Link) : Op → Prop
  | .pass _ => True
  | .deliver e i => i < (l.side e).flying.length
  | _ => False

/-- Nothing happens but deliveries, one at a time, of any datagrams that fly. -/
def Delivers : List Op → Link → Prop
  | [], _ => True
  | op :: ops, l => op.Delivers l ∧ Delivers ops (l.apply op).value

instance instDecidableOpDelivers (l : Link) : (op : Op) → Decidable (op.Delivers l)
  | .pass _ => .isTrue trivial
  | .deliver e i => inferInstanceAs (Decidable (i < (l.side e).flying.length))
  | .connect _ _ | .write _ _ _ _ | .close _ _ _ | .tick _ | .copy _ _ | .lose _ _
  | .restart _ _ => .isFalse not_false

instance instDecidableDelivers : (ops : List Op) → (l : Link) → Decidable (Delivers ops l)
  | [], _ => .isTrue trivial
  | op :: ops, l =>
    have := instDecidableDelivers ops (l.apply op).value
    inferInstanceAs (Decidable (_ ∧ _))

def Op.isDelivery : Op → Bool
  | .deliver _ _ => true
  | _ => false

/-- The number of datagrams in flight. -/
def airborne (l : Link) : Nat := l.a.flying.length + l.b.flying.length

/-- The number of writes that are parked in the channels of both tables. -/
def parkedWrites (l : Link) : Nat := l.a.table.parkedTickets.length + l.b.table.parkedTickets.length

theorem energy_le (l : Link) : l.energy ≤ 3 * (l.airborne + l.parkedWrites) := by
  have first := airEnergy_le l.a.flying
  have second := airEnergy_le l.b.flying
  have parked := l.a.table.energy_eq_parked
  have parked' := l.b.table.energy_eq_parked
  unfold airborne parkedWrites
  show airEnergy l.a.flying + l.a.table.energy + (airEnergy l.b.flying + l.b.table.energy) ≤ _
  omega

theorem delivers_of_drains {ops : List Op} (drains : Drains ops l) :
    Delivers ops l ∧ (run ops l).value.isQuiet = true := by
  induction ops generalizing l with
  | nil => exact ⟨trivial, drains⟩
  | cons op ops ih =>
    obtain ⟨first, rest⟩ := drains
    obtain ⟨delivers, quiet⟩ := ih rest
    refine ⟨⟨?_, delivers⟩, quiet⟩
    cases op with
    | pass duration => trivial
    | deliver e i =>
      obtain ⟨rfl, flies⟩ := first
      exact List.length_pos_iff.mpr flies
    | _ => exact first.elim

theorem delivers_append {ops ops' : List Op} :
    Delivers (ops ++ ops') l ↔ Delivers ops l ∧ Delivers ops' (run ops l).value := by
  induction ops generalizing l with
  | nil => exact ⟨fun rest => ⟨trivial, rest⟩, fun both => both.2⟩
  | cons op ops ih =>
    constructor
    · intro ⟨first, rest⟩
      exact ⟨⟨first, (ih.mp rest).1⟩, (ih.mp rest).2⟩
    · intro ⟨⟨first, rest⟩, rest'⟩
      exact ⟨first, ih.mpr ⟨rest, rest'⟩⟩

/-- Each delivery in a run is paid for out of the energy. -/
theorem energy_delivers {ops : List Op} (order : l.Ordered) (delivers : Delivers ops l) :
    (run ops l).value.Ordered ∧
      ops.countP Op.isDelivery + (run ops l).value.energy ≤ l.energy := by
  induction ops generalizing l with
  | nil => exact ⟨order, Nat.le_of_eq (Nat.zero_add _)⟩
  | cons op ops ih =>
    obtain ⟨first, rest⟩ := delivers
    cases op with
    | pass duration =>
      have order' : (l.apply (.pass duration)).value.Ordered := order
      obtain ⟨ordered, paid⟩ := ih order' rest
      refine ⟨ordered, ?_⟩
      rw [List.countP_cons_of_neg (by nofun)]
      exact paid
    | deliver e i =>
      have less := energy_deliver order first
      obtain ⟨ordered, paid⟩ := ih (order.deliver e i) rest
      refine ⟨ordered, ?_⟩
      rw [List.countP_cons_of_pos rfl, value_run_cons]
      omega
    | _ => exact first.elim

/-- While nothing but deliveries happens, there are at most three of them for each datagram in
flight and each parked write, in any order. They can be carried on within this bound until nothing
flies. -/
theorem deliveries_le {ops : List Op} (order : l.Ordered) (delivers : Delivers ops l) :
    ops.countP Op.isDelivery ≤ 3 * (l.airborne + l.parkedWrites) ∧
      ∃ rest, Delivers (ops ++ rest) l ∧ (run (ops ++ rest) l).value.isQuiet = true ∧
        (ops ++ rest).countP Op.isDelivery ≤ 3 * (l.airborne + l.parkedWrites) := by
  have limit := l.energy_le
  obtain ⟨ordered, paid⟩ := energy_delivers order delivers
  obtain ⟨rest, drains, _⟩ := ordered.drains
  obtain ⟨delivers', quiet⟩ := delivers_of_drains drains
  have whole := delivers_append.mpr ⟨delivers, delivers'⟩
  have paid' := (energy_delivers order whole).2
  refine ⟨by omega, rest, whole, ?_, by omega⟩
  rw [value_run_append]
  exact quiet

/-- Two tables with a channel for each other, and one packet on its way that belongs to no stream. -/
def strayed : Link :=
  let l := (run [.connect .a 1, .deliver .a 0, .deliver .b 0] pair).value
  l.setSide .a { l.a with flying := [(Packet.data 1 ⟨5⟩ 0 [7]).encode] }

/-- The bound is met: the packet is answered with a request to reset, and that with a confirmation. -/
theorem deliveries_le_of_strayed :
    strayed.airborne = 1 ∧ strayed.parkedWrites = 0 ∧
      Delivers [.deliver .a 0, .deliver .b 0, .deliver .a 0] strayed ∧
      ∃ rest, (run ([.deliver .a 0, .deliver .b 0, .deliver .a 0] ++ rest) strayed).value.isQuiet ∧
        rest.countP Op.isDelivery = 0 := by
  have delivers : Delivers [.deliver .a 0, .deliver .b 0, .deliver .a 0] strayed := by
    decide +kernel
  have order : strayed.Ordered := fun e => by cases e <;> exact .cons nofun .nil
  have airborne : strayed.airborne = 1 := by decide +kernel
  have parked : strayed.parkedWrites = 0 := by decide +kernel
  obtain ⟨_, rest, _, quiet, limit⟩ := deliveries_le order delivers
  rw [airborne, parked, List.countP_append] at limit
  exact ⟨airborne, parked, delivers, rest, quiet, Nat.le_zero.mp (Nat.le_of_add_le_add_left limit)⟩

end Delivers

end Link

end ReliableDatagram
