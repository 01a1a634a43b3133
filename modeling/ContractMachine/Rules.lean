import ContractMachine.InstructionSet

/-!
# Rules

A fork chooses the instruction set; the rules add the prices and limits that can be set apart.
-/

namespace ContractMachine

inductive Fork
  | frontier
  /-- Adds `DELEGATECALL`, and creations fail that cannot pay for their code. -/
  | homestead
  deriving DecidableEq

/-- The instruction set of a fork. -/
def Fork.instructions : Fork → InstructionSet
  | frontier => .frontier
  | homestead => .homestead

/-- Prices and limits of an execution. -/
structure Rules where
  fork : Fork
  extCodeGas : Nat
  balanceGas : Nat
  sloadGas : Nat
  /-- For a slot that is zero and becomes non-zero. -/
  sstoreSetGas : Nat
  /-- For every other write to a slot. -/
  sstoreResetGas : Nat
  /-- Given back for a slot that becomes zero. -/
  sstoreClearRefund : Int
  selfDestructGas : Nat
  callGas : Nat
  /-- For each byte of an exponent. -/
  expByteGas : Nat
  stackLimit : Nat
  memoryLimit : Nat
  /-- The greatest depth of a frame. -/
  callDepthLimit : Nat
  /-- Gas that a frame gets on top when value is sent to it. -/
  callStipend : Nat
  /-- At most the used gas divided by this is given back. -/
  maxRefundQuotient : Nat
  /-- Whether a creation fails that cannot pay for its code. -/
  failsOnUnpaidCode : Bool
  deriving DecidableEq

namespace Rules

def frontier : Rules where
  fork := .frontier
  extCodeGas := 20
  balanceGas := 20
  sloadGas := 50
  sstoreSetGas := 20000
  sstoreResetGas := 5000
  sstoreClearRefund := 15000
  selfDestructGas := 0
  callGas := 40
  expByteGas := 10
  stackLimit := 1024
  memoryLimit := Quantity.max
  callDepthLimit := 1024
  callStipend := 2300
  maxRefundQuotient := 2
  failsOnUnpaidCode := false

def homestead : Rules := { frontier with fork := .homestead, failsOnUnpaidCode := true }

/-- The rules of a fork. -/
def ofFork : Fork → Rules
  | .frontier => frontier
  | .homestead => homestead

end Rules

end ContractMachine
