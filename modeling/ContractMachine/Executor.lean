import ContractMachine.Address
import ContractMachine.Environment
import ContractMachine.Frame
import ContractMachine.Machine
import ContractMachine.Trace
import ContractMachine.World

/-!
# The executor

The executor holds the world, the frame that runs, and the frames that wait for it. Each waiting
frame comes with the snapshot of the world at which the frame inside it was entered.
-/

namespace ContractMachine

structure Executor (β : Type := Instruction) (φ : Type := Footprint) where
  rules : Rules
  instructions : InstructionSet β φ
  environment : Environment
  world : World
  /-- The sender of the transaction. -/
  origin : Address
  /-- Whether transactions run read-only. -/
  readOnly : Bool
  frame : Frame
  /-- The frames around this one, the innermost first. -/
  waiting : List (Frame × Nat)
  trace : Trace

namespace Executor

variable {β φ : Type}

/-- An executor of the instruction set that the rules choose. -/
def new (world : World) (rules : Rules) (environment : Environment) : Executor where
  rules := rules
  instructions := rules.fork.instructions
  environment := environment
  world := world
  origin := 0
  readOnly := false
  frame := .outermost 0
  waiting := []
  trace := .silent

/-- The executor with another instruction set than that of its rules. -/
def withInstructions (ex : Executor) (instructions : InstructionSet β φ) : Executor β φ :=
  { ex with instructions := instructions }

/-- Gas left in the frame that runs. -/
def gas (ex : Executor β φ) : Nat := ex.frame.meter.gas

/-- Changes the world. -/
@[always_inline, inline]
def onWorld (f : World → World) (ex : Executor β φ) : Executor β φ :=
  { ex with world := f ex.world }

/-- Adds an event to the trace. -/
@[inline]
def emit (ex : Executor β φ) (listener : Listener) (event : Event) : Executor β φ :=
  if ex.trace.hears listener then
    { ex with trace := ⟨ex.trace.listeners, event :: ex.trace.latest⟩ }
  else ex

/-- Announces an entry and records it in the meter of the frame. -/
def record (entry : Entry) : Action (Executor β φ) Unit := fun ex =>
  match ex.frame.meter.record ex.rules entry with
  | (result, meter) =>
    (result,
      { ex with
        trace := ex.trace.announce ex.rules ex.frame.meter entry
        frame := { ex.frame with meter := meter } })

/-- Records entries up to the first that faults. -/
def recordAll : List Entry → Action (Executor β φ) Unit
  | [] => pure ()
  | entry :: rest => do
    record entry
    recordAll rest

/-- Uses up the gas of the frame. -/
def failMeter (ex : Executor β φ) : Executor β φ :=
  { ex with frame := { ex.frame with meter := ex.frame.meter.fail } }

/-- Enters a nested frame. -/
def enter (gasLimit : Nat) (readOnly : Bool) (ex : Executor β φ) : Executor β φ :=
  { ex with
    frame := ex.frame.child gasLimit readOnly
    waiting := (ex.frame, ex.world.snapshot) :: ex.waiting }

/-- Closes the nested frame and goes back to the frame around it. -/
def leave (closing : Closing) : Action (Executor β φ) Unit := fun ex =>
  match ex.waiting with
  | [] => (.error (.other "no substate to exit"), ex)
  | (parent, snapshot) :: rest =>
    let world := if closing = .commit then ex.world else ex.world.revertTo snapshot
    recordAll (ex.frame.giveBack closing)
      { ex with frame := parent, waiting := rest, world := world }

/-- Closes the nested frame, whatever its parent's meter says. -/
def close (closing : Closing) (ex : Executor β φ) : Executor β φ := (leave closing ex).2

/-- Starts a transaction. -/
def reset (caller : Address) (gasLimit : Nat) (ex : Executor β φ) : Executor β φ :=
  { ex with
    origin := caller
    frame := { Frame.outermost gasLimit with readOnly := ex.readOnly }
    waiting := [] }

/-- Moves value between two accounts if the source has it. -/
def transfer (t : Transfer) : Action (Executor β φ) Unit := fun ex =>
  if ex.world.balance t.source < t.value then (.error .outOfFund, ex)
  else (.ok (), ex.onWorld fun w => (w.subBalance t.source t.value).addBalance t.target t.value)

/-- Moves the whole balance of an account to `target` and marks the account. -/
def markDestroyed (address target : Address) : Action (Executor β φ) Unit := fun ex =>
  let balance := ex.world.balance address
  let ex := ex.emit .executor (.selfDestruct address target balance)
  match transfer ⟨address, target, balance⟩ ex with
  | (.error e, ex) => (.error e, ex)
  | (.ok _, ex) => (.ok (), ex.onWorld fun w => w.selfDestruct address)

/-- Gas used by the last transaction, refunds deducted. None where the rules have the refunds
limited by a division by zero. -/
def usedGas? (ex : Executor β φ) : Option Nat := do
  let total := ex.frame.meter.totalUsedGas
  let most ← Quantity.checkedDiv total ex.rules.maxRefundQuotient
  return total - min most ex.frame.meter.refundedGas.toNat

/-- The fee of the last transaction at a gas price. -/
def fee? (ex : Executor β φ) (price : Word) : Option Word := do
  let used ← ex.usedGas?
  return Word.saturatingMul (BitVec.ofNat 256 used) price

/-- The address of the contract that `caller` would create next. -/
def nextCreation (ex : Executor β φ) (caller : Address) : Address :=
  Address.ofCreation caller (ex.world.nonce caller)

/-- Whether an address cannot be given to a new contract. -/
def isCollision (ex : Executor β φ) (address : Address) : Bool :=
  ex.world.nonce address != 0 || (ex.world.code address).size != 0

/-- The price of an opcode that is not priced statically, with the operands on the stack. -/
def price (ex : Executor β φ) (op : Opcode) (address : Address) (stack : Stack) :
    Except Fault Price :=
  match op.instruction? with
  | some .ret => .ok .zero
  | some .mload | some .mstore | some .mstore8 => .ok .veryLow
  | some .balance => .ok .balance
  | some .extCodeSize => .ok .extCodeSize
  | some .sload => .ok .sload
  | some (.binary .exp) => return .exp (← stack.peek 1)
  | some .sha3 => return .sha3 (← stack.peek 1)
  | some .callDataCopy | some .codeCopy => return .copy (← stack.peek 2)
  | some .extCodeCopy => return .extCodeCopy (← stack.peek 3)
  | some (.log topics) => return .log topics (← stack.peek 1)
  | some .sstore => do
    let slot ← stack.peek 0
    let value ← stack.peek 1
    return .sstore (ex.world.storage address slot) value
  | some .create => .ok .create
  | some (.call .call) => do
    let value ← stack.peek 2
    let gas ← stack.peek 0
    let target ← stack.peek 1
    return .call value gas (ex.world.exists? target.toAddress)
  | some (.call .callCode) => do
    let value ← stack.peek 2
    let gas ← stack.peek 0
    return .callCode value gas
  | some (.call .delegateCall) =>
    match ex.rules.fork with
    | .frontier => .ok (.invalid op)
    | .homestead => return .delegateCall (← stack.peek 0)
  | some .selfDestruct => .ok (.selfDestruct (ex.world.isMarked address))
  | _ => .ok (.invalid op)

/-- Charges the frame for an opcode and for memory up to `memoryEnd` bytes. -/
def charge (op : Opcode) (address : Address) (stack : Stack) (memoryEnd : Option Nat) :
    Action (Executor β φ) Unit := fun ex =>
  match op.staticCost?, memoryEnd with
  | some cost, none => record (.cost cost) ex
  | _, _ =>
    match ex.price op address stack with
    | .error e => (.error e, ex)
    | .ok price => record (.priced price memoryEnd) ex

theorem usedGas?_eq_some_iff {ex : Executor β φ} {used : Nat} :
    ex.usedGas? = some used ↔
      ex.rules.maxRefundQuotient ≠ 0 ∧
        used = ex.frame.meter.totalUsedGas -
          min (ex.frame.meter.totalUsedGas / ex.rules.maxRefundQuotient)
            ex.frame.meter.refundedGas.toNat := by
  by_cases hquotient : ex.rules.maxRefundQuotient = 0
  · simp [usedGas?, Quantity.checkedDiv, hquotient]
  · simp [usedGas?, Quantity.checkedDiv_eq hquotient, hquotient, eq_comm]

end Executor

end ContractMachine
