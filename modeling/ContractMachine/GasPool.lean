import ContractMachine.Quantity

/-!
# The gas pool of a block

The gas that the messages of a block share. It is a quantity, so giving gas back stops at the
largest one.
-/

namespace ContractMachine

structure GasPool where
  gas : Nat
  gas_le : gas ≤ Quantity.max

/-- The pool holds less gas than was asked for. -/
structure GasShortage where
  available : Nat
  requested : Nat
  deriving DecidableEq

def GasShortage.text (e : GasShortage) : String :=
  "gas limit reached: " ++ toString e.requested ++ " requested, " ++ toString e.available ++
    " available"

namespace GasPool

/-- A pool of this much gas, at most the largest quantity. -/
def ofNat (gas : Nat) : GasPool := ⟨min gas Quantity.max, Nat.min_le_right _ _⟩

/-- Gives gas back. -/
def add (p : GasPool) (amount : Nat) : GasPool :=
  ⟨Quantity.saturatingAdd p.gas amount, Nat.min_le_right _ _⟩

/-- Takes gas out if there is enough. -/
def sub (p : GasPool) (amount : Nat) : Except GasShortage GasPool :=
  if amount ≤ p.gas then .ok ⟨p.gas - amount, Nat.le_trans (Nat.sub_le _ _) p.gas_le⟩
  else .error ⟨p.gas, amount⟩

end GasPool

end ContractMachine
