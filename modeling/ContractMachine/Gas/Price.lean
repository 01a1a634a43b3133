import ContractMachine.Gas.Schedule

/-!
# Prices

Most instructions have a fixed price. The others have a `Price`, which holds the operands that the
amount depends on.
-/

namespace ContractMachine

/-- The fixed price of an instruction, if it has one. -/
def Instruction.staticCost? : Instruction → Option Nat
  | stop => some 0
  | unary _ => some Gas.veryLow
  | binary .add | binary .sub | binary .lt | binary .gt | binary .slt | binary .sgt | binary .eq
  | binary .and | binary .or | binary .xor | binary .byte => some Gas.veryLow
  | binary .mul | binary .div | binary .sdiv | binary .mod | binary .smod
  | binary .signExtend => some Gas.low
  | binary .exp => none
  | ternary _ => some Gas.mid
  | reading _ | pop => some Gas.base
  | callDataLoad | push _ | dup _ | swap _ => some Gas.veryLow
  | jump => some Gas.mid
  | jumpIf => some Gas.high
  | jumpDest => some Gas.jumpDest
  | blockHash => some Gas.blockHash
  | sha3 | balance | callDataCopy | codeCopy | extCodeSize | extCodeCopy | mload | mstore
  | mstore8 | sload | sstore | log _ | create | call _ | ret | selfDestruct | invalid => none

/-- The fixed price of an opcode, if it has one. -/
def Opcode.staticCost? (op : Opcode) : Option Nat := op.instruction?.bind Instruction.staticCost?

/-- A price that is not fixed for its opcode. -/
inductive Price
  | zero
  | veryLow
  | balance
  | extCodeSize
  | sload
  | exp (power : Word)
  | sha3 (length : Word)
  | copy (length : Word)
  | extCodeCopy (length : Word)
  | log (topics : Nat) (length : Word)
  | sstore (current new : Word)
  | create
  | call (value gas : Word) (targetExists : Bool)
  | callCode (value gas : Word)
  | delegateCall (gas : Word)
  | selfDestruct (alreadyMarked : Bool)
  /-- The opcode has no price under the rules. -/
  | invalid (op : Opcode)
  deriving DecidableEq

namespace Price

/-- The amount to pay. -/
def cost (rules : Rules) : Price → Except Fault Nat
  | zero => .ok 0
  | veryLow => .ok Gas.veryLow
  | balance => .ok rules.balanceGas
  | extCodeSize => .ok rules.extCodeGas
  | sload => .ok rules.sloadGas
  | exp power => Gas.expCost rules power
  | sha3 length => Gas.sha3Cost length
  | copy length => Gas.copyCost length
  | extCodeCopy length => Gas.extCodeCopyCost rules length
  | log topics length => Gas.logCost topics length
  | sstore current new => .ok (Gas.sstoreCost rules current new)
  | create => .ok Gas.create
  | call value _ targetExists => .ok (Gas.callCost rules value (!targetExists))
  | callCode value _ => .ok (Gas.callCost rules value false)
  | delegateCall _ => .ok (Gas.callCost rules 0 false)
  | selfDestruct _ => .ok rules.selfDestructGas
  | invalid op => .error (.invalidCode op)

/-- The amount that is given back at the end. -/
def refund (rules : Rules) : Price → Int
  | sstore current new => Gas.sstoreRefund rules current new
  | selfDestruct alreadyMarked => if alreadyMarked then 0 else Gas.selfDestructRefund
  | _ => 0

/-- The gas that a call hands over, which has to be left once the call itself is paid. -/
def forwarded : Price → Nat
  | call _ gas _ | callCode _ gas | delegateCall gas => gas.toNat
  | _ => 0

end Price

end ContractMachine
