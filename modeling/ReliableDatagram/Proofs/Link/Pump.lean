import ReliableDatagram.Proofs.Link.Calm
import Mathlib.Algebra.GroupWithZero.Nat

/-!
# Pumping a link

A stroke of the pump lets time pass, ticks both ends, and then carries all that flies from `a` and
all that flies from `b`, without losses. Before it, the ends may write. Carrying is delivering the
oldest datagrams one after the other: `carry_eq_run`, so that a stroke is a run like any other.
-/

namespace ReliableDatagram.Link

/-- What may happen between two strokes: time passes, and the ends write. -/
def Op.isPause : Op → Bool
  | .pass _ | .write _ _ _ _ => true
  | _ => false

def Op.duration : Op → Nat
  | .pass duration => duration
  | _ => 0

structure Stroke where
  /-- What happens after the last stroke. -/
  pause : List Op := []
  /-- The time that passes right before the ticks. -/
  step : Nat

namespace Stroke

def Regular (s : Stroke) : Prop := ∀ op ∈ s.pause, op.isPause = true

instance (s : Stroke) : Decidable s.Regular := inferInstanceAs (Decidable (∀ _ ∈ _, _))

/-- What happens up to the ticks. -/
def wait (s : Stroke) : List Op := s.pause ++ [.pass s.step]

def duration (s : Stroke) : Nat := (s.wait.map Op.duration).sum

def run (s : Stroke) (l : Link) : Logged (End × Effect) Link := do
  let l ← Link.run s.pause l
  let l ← l.beat s.step
  Prod.snd <$> round 0 (0, l)

end Stroke

def pump : List Stroke → Link → Logged (End × Effect) Link
  | [], l => pure l
  | s :: ss, l => do pump ss (← s.run l)

variable {l : Link} {e : End}

/-- What arrives from an end is handled alike whatever else flies from there. -/
theorem arrive_setSide (l : Link) (e : End) (flying : List Bytes) (bytes : Bytes) :
    (l.setSide e { l.side e with flying }).arrive e bytes =
      (fun l' => l'.setSide e { l.side e with flying }) <$> l.arrive e bytes := by
  cases e <;> rfl

theorem setSide_setSide (l : Link) (e : End) (s s' : Side) :
    (l.setSide e s).setSide e s' = l.setSide e s' := by
  cases e <;> rfl

/-- The deliveries of all that flies from an end, in order. -/
def landings (l : Link) (e : End) : List Op :=
  List.replicate (l.side e).flying.length (.deliver e 0)

theorem apply_deliver_first {bytes : Bytes} {flying : List Bytes}
    (found : (l.side e).flying = bytes :: flying) :
    l.apply (.deliver e 0) =
      (fun l' => l'.setSide e { l.side e with flying }) <$> l.arrive e bytes := by
  have here : (l.side e).flying[0]? = some bytes := by
    rw [found]
    rfl
  have taken : (l.lose e 0).2 = l.setSide e { l.side e with flying } := by
    simp only [lose, found, List.eraseIdx_cons_zero]
  simp only [apply, deliver, here, taken, arrive_setSide]
  rfl

/-- Carrying all that flies from an end is delivering it, the oldest datagram first. -/
theorem carry_eq_run (l : Link) (e : End) (carried : Nat) :
    carry 0 e (l.side e).flying (carried, l.setSide e { l.side e with flying := [] }) =
      (carried + (l.side e).flying.length, ·) <$> Link.run (l.landings e) l := by
  unfold landings
  generalize found : (l.side e).flying = flying
  induction flying generalizing l carried with
  | nil =>
    have same : { l.side e with flying := [] } = l.side e := by rw [← found]
    rw [same, setSide_side]
    rfl
  | cons bytes flying ih =>
    have delivered := apply_deliver_first found
    have flies : ((l.apply (.deliver e 0)).value.side e).flying = flying := by
      rw [delivered, Logged.value_map, side_setSide_self]
    have rest := ih (l.apply (.deliver e 0)).value (carried + 1) flies
    rw [delivered, Logged.value_map, side_setSide_self, setSide_setSide] at rest
    have first : carryOne 0 e (carried, l.setSide e { l.side e with flying := [] }) bytes =
        (fun l' => (carried + 1, l'.setSide e { l.side e with flying := [] })) <$>
          l.arrive e bytes := by
      simp only [carryOne, ne_eq, not_true_eq_false, false_and, if_false, arrive_setSide]
      rfl
    have total : carried + 1 + flying.length = carried + (flying.length + 1) := by omega
    simp only [carry, first, List.length_cons, List.replicate_succ, Link.run, delivered, ← total]
    show Logged.mk _ _ = Logged.mk _ _
    simp only [Logged.value_map, Logged.log_map, rest]
    rfl

/-- After that, nothing flies from this end any more. -/
theorem flying_landings (l : Link) (e : End) :
    ((Link.run (l.landings e) l).value.side e).flying = [] := by
  unfold landings
  generalize found : (l.side e).flying = flying
  induction flying generalizing l with
  | nil => exact found
  | cons bytes flying ih =>
    refine ih (l.apply (.deliver e 0)).value ?_
    rw [apply_deliver_first found, Logged.value_map, side_setSide_self]

theorem run_append (ops ops' : List Op) (l : Link) :
    Link.run (ops ++ ops') l = Link.run ops l >>= Link.run ops' := by
  show Logged.mk _ _ = Logged.mk _ _
  rw [value_run_append, log_run_append]

theorem carryAll_eq_run (l : Link) (e : End) (carried : Nat) :
    carryAll 0 e (carried, l) =
      (carried + (l.side e).flying.length, ·) <$> Link.run (l.landings e) l :=
  carry_eq_run l e carried

/-- The deliveries of a whole round. -/
def roundTrip (l : Link) : List Op :=
  l.landings .a ++ (Link.run (l.landings .a) l).value.landings .b

theorem round_eq_run (l : Link) (carried : Nat) :
    Prod.snd <$> round 0 (carried, l) = Link.run l.roundTrip l := by
  rw [roundTrip, run_append]
  simp only [round, carryAll_eq_run]
  show Logged.mk _ _ = Logged.mk _ _
  simp only [Logged.value_map, Logged.log_map, Logged.value_bind, Logged.log_bind, carryAll_eq_run]

theorem beat_eq_run (l : Link) (step : Nat) :
    l.beat step = Link.run [.pass step, .tick .a, .tick .b] l := rfl

theorem Stroke.run_eq (s : Stroke) (l : Link) :
    let ticked := (Link.run (s.wait ++ [.tick .a, .tick .b]) l).value
    s.run l = Link.run (s.wait ++ [.tick .a, .tick .b] ++ ticked.roundTrip) l := by
  intro ticked
  rw [run_append, wait, List.append_assoc, run_append]
  simp only [Stroke.run, beat_eq_run, round_eq_run]
  show Logged.mk _ _ = Logged.mk _ _
  simp only [Logged.log_bind, List.append_assoc, ticked, wait, run_append]
  rfl

end ReliableDatagram.Link
