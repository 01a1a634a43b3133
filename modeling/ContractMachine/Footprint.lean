import ContractMachine.Stack

/-!
# Memory requirements

A footprint says which operands of an operation bound the memory that it touches. Its end is the
first offset past that memory; an operation that touches no byte has none.
-/

namespace ContractMachine

/-- The memory that an operation touches, read off its operands. -/
inductive Footprint
  /-- From the offset in one item, as many bytes as another item says. -/
  | region (offset length : Nat)
  /-- From the offset in one item, a fixed number of bytes. -/
  | span (offset : Nat) (length : Word)
  /-- Two regions, the input and the output of a call. -/
  | regions (inOffset inLength outOffset outLength : Nat)
  deriving DecidableEq

namespace Footprint

/-- The end of `length` bytes from `offset` on. -/
def endOf (offset length : Word) : Except Fault (Option Nat) :=
  if length = 0 then .ok none
  else if offset.toNat + length.toNat < Word.count then .ok (some (offset.toNat + length.toNat))
  else .error .gasUintOverflow

/-- The end of the region that two items describe. -/
def regionEnd (s : Stack) (offset length : Nat) : Except Fault (Option Nat) := do
  let offset ← s.peek offset
  let length ← s.peek length
  endOf offset length

/-- The later of two ends. -/
def later : Option Nat → Option Nat → Option Nat
  | some a, some b => some (max a b)
  | some a, none => some a
  | none, b => b

/-- The end of the memory that an operation touches with these operands. -/
def stop (s : Stack) : Footprint → Except Fault (Option Nat)
  | region offset length => regionEnd s offset length
  | span offset length => do
    let offset ← s.peek offset
    endOf offset length
  | regions inOffset inLength outOffset outLength => do
    let input ← regionEnd s inOffset inLength
    let output ← regionEnd s outOffset outLength
    pure (later input output)

/-- An end rounded up to whole words; one past the quantities cannot be paid for. -/
def align : Option Nat → Except Fault (Option Nat)
  | none => .ok none
  | some stop =>
    if stop < Quantity.limit then
      match Quantity.checkedMul (stop / 32 + if stop % 32 = 0 then 0 else 1) 32 with
      | some aligned => .ok (some aligned)
      | none => .error .gasUintOverflow
    else .error .gasUintOverflow

theorem align_some (stop : Nat) :
    align (some stop) =
      if stop < Quantity.limit ∧ Quantity.wordAlign stop < Quantity.limit then
        .ok (some (Quantity.wordAlign stop))
      else .error .gasUintOverflow := by
  have hwords : (stop / 32 + if stop % 32 = 0 then 0 else 1) * 32 = Quantity.wordAlign stop := by
    unfold Quantity.wordAlign
    by_cases hwhole : stop % 32 = 0
    · rw [if_pos hwhole]
      omega
    · rw [if_neg hwhole]
      omega
  simp only [align, Quantity.checkedMul, hwords]
  by_cases hstop : stop < Quantity.limit
  · by_cases haligned : Quantity.wordAlign stop < Quantity.limit
    · simp only [hstop, haligned, and_self, if_true]
    · simp only [hstop, haligned, and_false, if_true, if_false]
  · simp only [hstop, false_and, if_false]

end Footprint

end ContractMachine
