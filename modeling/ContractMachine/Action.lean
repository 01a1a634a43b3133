import ContractMachine.Exit

/-!
# Actions

An action on a state gives a result or a fault, and gives the state back in either case.
-/

namespace ContractMachine

/-- A computation on a state of type `σ` that can fault and always gives the state back. -/
def Action (σ α : Type) : Type := σ → Except Fault α × σ

namespace Action

variable {σ α β : Type}

@[always_inline, inline]
protected def pure (a : α) : Action σ α := fun s => (.ok a, s)

/-- The second action starts from the state that the first gave back; a fault skips it. -/
@[always_inline, inline]
protected def bind (x : Action σ α) (f : α → Action σ β) : Action σ β := fun s =>
  match x s with
  | (.ok a, s) => f a s
  | (.error e, s) => (.error e, s)

@[always_inline]
instance : Monad (Action σ) where
  pure := Action.pure
  bind := Action.bind

/-- Faults and leaves the state as it is. -/
@[always_inline, inline]
def fault (e : Fault) : Action σ α := fun s => (.error e, s)

/-- A result read off the state. -/
@[always_inline, inline]
def read (f : σ → α) : Action σ α := fun s => (.ok (f s), s)

/-- A result or a fault read off the state. -/
@[always_inline, inline]
def query (f : σ → Except Fault α) : Action σ α := fun s => (f s, s)

/-- Changes the state. -/
@[always_inline, inline]
def modify (f : σ → σ) : Action σ Unit := fun s => (.ok (), f s)

@[simp] theorem pure_apply (a : α) (s : σ) : (pure a : Action σ α) s = (.ok a, s) := rfl

theorem bind_apply (x : Action σ α) (f : α → Action σ β) (s : σ) :
    (x >>= f) s =
      match x s with
      | (.ok a, s) => f a s
      | (.error e, s) => (.error e, s) := rfl

end Action

end ContractMachine
