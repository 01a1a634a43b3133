import ContractMachine.Gas.Meter

/-!
# Frames

What the executor keeps for a frame beside its machine: the meter, the depth and whether the frame
is read-only. A nested frame ends in one of three ways, which decide what its parent gets back.
-/

namespace ContractMachine

/-- How a nested frame is closed. -/
inductive Closing
  /-- Its changes stay, and its parent gets its gas and its refunds. -/
  | commit
  /-- Its changes are taken back, and its parent gets its gas. -/
  | revert
  /-- Its changes are taken back, and its gas is lost. -/
  | discard
  deriving DecidableEq

structure Frame where
  meter : Meter
  readOnly : Bool
  /-- None for the frame around a transaction, and counted from zero inside it. -/
  depth : Option Nat
  deriving DecidableEq

namespace Frame

/-- The frame around a transaction. -/
def outermost (gasLimit : Nat) : Frame := ⟨.new gasLimit, false, none⟩

/-- A frame inside this one. -/
def child (f : Frame) (gasLimit : Nat) (readOnly : Bool) : Frame :=
  ⟨.new gasLimit, readOnly || f.readOnly, some (f.depth.elim 0 (· + 1))⟩

/-- What the parent records when the frame is closed. -/
def giveBack (f : Frame) : Closing → List Entry
  | .commit => [.stipend f.meter.gas, .refund f.meter.refundedGas]
  | .revert => [.stipend f.meter.gas]
  | .discard => []

end Frame

end ContractMachine
