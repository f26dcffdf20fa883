/-!
# Values with a log

A computation that acts on the outside world is a pure function to a value and the list of its
actions, in order.
-/

namespace ReliableDatagram

structure Logged (ε α : Type) where
  value : α
  log : List ε

namespace Logged

variable {ε α β : Type}

instance : Monad (Logged ε) where
  pure a := ⟨a, []⟩
  bind x f := ⟨(f x.value).value, x.log ++ (f x.value).log⟩
  map f x := ⟨f x.value, x.log⟩

/-- Puts an action into the log. -/
def act (e : ε) : Logged ε Unit := ⟨(), [e]⟩

@[simp] theorem value_pure (a : α) : (pure a : Logged ε α).value = a := rfl

@[simp] theorem log_pure (a : α) : (pure a : Logged ε α).log = [] := rfl

@[simp] theorem value_bind (x : Logged ε α) (f : α → Logged ε β) :
    (x >>= f).value = (f x.value).value := rfl

@[simp] theorem log_bind (x : Logged ε α) (f : α → Logged ε β) :
    (x >>= f).log = x.log ++ (f x.value).log := rfl

@[simp] theorem value_act (e : ε) : (act e).value = () := rfl

@[simp] theorem log_act (e : ε) : (act e).log = [e] := rfl

@[simp] theorem value_map (f : α → β) (x : Logged ε α) : (f <$> x).value = f x.value := rfl

@[simp] theorem log_map (f : α → β) (x : Logged ε α) : (f <$> x).log = x.log := rfl

end Logged

end ReliableDatagram
