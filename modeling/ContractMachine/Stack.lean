import ContractMachine.Action

/-!
# The operand stack

Items are kept with the top first and counted from zero at the top.
-/

namespace ContractMachine

structure Stack where
  /-- The items, the top first. -/
  items : List Word
  /-- The greatest height. -/
  limit : Nat
  deriving DecidableEq

namespace Stack

def empty (limit : Nat) : Stack := ⟨[], limit⟩

def height (s : Stack) : Nat := s.items.length

/-- More items than any memory holds. -/
def beyondMemory : Nat := 0x8000000000000000

/-- The height once `pop` items are taken and `push` items are put on. It starts again from zero
past the largest quantity; a stack that no memory holds is spared this. -/
def heightAfter (s : Stack) (pop push : Nat) : Nat :=
  if s.height < beyondMemory then Quantity.wrappingAdd (s.height - pop) push
  else s.height - pop + push

/-- Whether `pop` items can be taken and then `push` items be put on. -/
def check (s : Stack) (pop push : Nat) : Except Fault Unit :=
  if s.height < pop then .error .stackUnderflow
  else if s.limit < s.heightAfter pop push then .error .stackOverflow
  else .ok ()

/-- Takes the top. -/
def pop : Action Stack Word
  | ⟨[], limit⟩ => (.error .stackUnderflow, ⟨[], limit⟩)
  | ⟨top :: rest, limit⟩ => (.ok top, ⟨rest, limit⟩)

/-- Puts a word on top. -/
def push (w : Word) : Action Stack Unit := fun s =>
  if s.limit < s.height + 1 then (.error .stackOverflow, s) else (.ok (), ⟨w :: s.items, s.limit⟩)

/-- Item `n`. -/
def peek (s : Stack) (n : Nat) : Except Fault Word :=
  match s.items[n]? with
  | some w => .ok w
  | none => .error .stackUnderflow

/-- Item `n` as a quantity; running out of gas stands for a greater word. -/
def peekQuantity (s : Stack) (n : Nat) : Except Fault Nat :=
  match s.peek n with
  | .error e => .error e
  | .ok w =>
    match w.toQuantity? with
    | some q => .ok q
    | none => .error .outOfGas

/-- Overwrites item `n`. -/
def set (n : Nat) (w : Word) : Action Stack Unit := fun s =>
  if n < s.height then (.ok (), ⟨s.items.set n w, s.limit⟩) else (.error .stackUnderflow, s)

theorem heightAfter_eq {s : Stack} {pop push : Nat} (h : s.height - pop + push < Quantity.limit) :
    s.heightAfter pop push = s.height - pop + push := by
  unfold heightAfter
  rw [Quantity.wrappingAdd_eq h, ite_self]

/-- Where at most one item more is put on than is taken, the height never starts again. -/
theorem heightAfter_of_le {s : Stack} {pop push : Nat} (hpop : pop ≤ s.height)
    (hpush : push ≤ pop + 1) : s.heightAfter pop push = s.height - pop + push := by
  unfold heightAfter
  by_cases hheight : s.height < beyondMemory
  · rw [if_pos hheight]
    apply Quantity.wrappingAdd_eq
    unfold beyondMemory at hheight
    unfold Quantity.limit
    omega
  · rw [if_neg hheight]

end Stack

end ContractMachine
