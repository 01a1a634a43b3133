import ContractMachine.Execution.Local
import ContractMachine.Execution.Nested

/-!
# One step of a frame

An instruction is first looked at without any effect, then charged for, and only then performed.
-/

namespace ContractMachine

/-- An instruction that may be charged for. -/
structure Task (β : Type := Instruction) (φ : Type := Footprint) where
  op : Opcode
  operation : Operation β φ
  /-- The length that the memory has to have, in whole words. -/
  memoryEnd : Option Nat

/-- Where a step leaves its frame. -/
inductive Progress (β : Type := Instruction) (φ : Type := Footprint)
  | next (m : Machine) (ex : Executor β φ)
  | exit (exit : Exit) (m : Machine) (ex : Executor β φ)

/-- What the operations of a kind do and touch. They may do anything with the machine and the
executor, end the frame in any way, and find any fault in the operands. -/
class Behaviour (β φ : Type) where
  /-- What an operation does. The runner runs the frames that it enters. -/
  act : Runner β φ → β → Context → Machine → Executor β φ →
    Option (Control × Machine × Executor β φ)
  /-- The end of the memory that an operation touches with these operands. -/
  stop : Stack → φ → Except Fault (Option Nat)

/-- Performs an action on the machine, and goes on. -/
def proceed (x : Action Machine Unit) (m : Machine) (ex : Executor) :
    Control × Machine × Executor :=
  match x m with
  | (.ok _, m) => (.proceed, m, ex)
  | (.error e, m) => (.fault e, m, ex)

/-- Takes operands from the machine, and goes on with them. -/
@[inline]
def takeThen {α : Type} (x : Action Machine α) (m : Machine) (ex : Executor)
    (k : α → Machine → Executor → Option (Control × Machine × Executor)) :
    Option (Control × Machine × Executor) :=
  match x m with
  | (.ok a, m) => k a m ex
  | (.error e, m) => some (.fault e, m, ex)

/-- Reads a slot of storage. -/
def performLoad (context : Context) (m : Machine) (ex : Executor) :
    Control × Machine × Executor :=
  match Machine.pop m with
  | (.error e, m) => (.fault e, m, ex)
  | (.ok slot, m) =>
    let value := ex.world.storage context.address slot
    match Machine.push value m with
    | (.error e, m) => (.fault e, m, ex)
    | (.ok _, m) => (.proceed, m, ex.emit .runtime (.sload context.address slot value))

/-- Performs an instruction. -/
def perform (runner : Runner) (instruction : Instruction) (context : Context) (m : Machine)
    (ex : Executor) : Option (Control × Machine × Executor) :=
  match instruction with
  | .stop => some (.halt .stopped, m, ex)
  | .unary op => some (proceed (Machine.unary op) m ex)
  | .binary op => some (proceed (Machine.binary op) m ex)
  | .ternary op => some (proceed (Machine.ternary op) m ex)
  | .sha3 => some (proceed Machine.sha3 m ex)
  | .reading value => some (proceed (Machine.push (value.value context m ex)) m ex)
  | .balance => some (proceed (Machine.lookup fun w => ex.world.balance w.toAddress) m ex)
  | .callDataLoad => some (proceed Machine.callDataLoad m ex)
  | .callDataCopy => some (proceed (Machine.copy Machine.input) m ex)
  | .codeCopy => some (proceed (Machine.copy Machine.code) m ex)
  | .extCodeSize => some (proceed (Machine.lookup fun w => ex.world.codeSize w.toAddress) m ex)
  | .extCodeCopy => some (proceed (Machine.extCodeCopy ex.world.code) m ex)
  | .blockHash => some (proceed (Machine.lookup ex.environment.blockHash) m ex)
  | .pop => some (proceed Machine.discard m ex)
  | .mload => some (proceed Machine.mload m ex)
  | .mstore => some (proceed Machine.mstore m ex)
  | .mstore8 => some (proceed Machine.mstore8 m ex)
  | .sload => some (performLoad context m ex)
  | .sstore =>
    takeThen Machine.takeStore m ex fun (slot, value) m ex =>
      let ex := ex.emit .runtime (.sstore context.address slot value)
      some (.proceed, m, ex.onWorld fun w => w.setStorage context.address slot value)
  | .jump => some (proceed Machine.jump m ex)
  | .jumpIf => some (proceed Machine.jumpIf m ex)
  | .jumpDest => some (.proceed, m, ex)
  | .push width => some (proceed (Machine.pushImmediate width) m ex)
  | .dup n => some (proceed (Machine.dup n) m ex)
  | .swap n => some (proceed (Machine.swap n) m ex)
  | .log topics =>
    takeThen (Machine.takeLog topics) m ex fun (topics, data) m ex =>
      some (.proceed, m, ex.onWorld fun w => w.log ⟨context.address, topics, data⟩)
  | .create =>
    takeThen Machine.takeCreation m ex fun (value, initCode) m ex =>
      match ex.create runner context.address value initCode none with
      | none => none
      | some (c, ex) => some (proceed (Machine.finishCreation c.exit c.created) m ex)
  | .call scheme =>
    takeThen (Machine.takeCall scheme) m ex fun request m ex =>
      match ex.call runner request.target
          (context.transferFor scheme request.target request.value) request.input
          request.gas.toQuantity? true
          (context.forCall scheme request.target request.value) with
      | none => none
      | some (outcome, ex) =>
        some (proceed (Machine.finishCall request outcome.exit outcome.output) m ex)
  | .ret =>
    takeThen Machine.ret m ex fun _ m ex => some (.halt .returned, m, ex)
  | .selfDestruct =>
    takeThen Machine.pop m ex fun target m ex =>
      match Executor.markDestroyed context.address target.toAddress ex with
      | (.ok _, ex) => some (.halt .suicided, m, ex)
      | (.error e, ex) => some (.fault e, m, ex)
  | .invalid =>
    match m.opcode? with
    | some op => some (.fault (.invalidCode op), m, ex)
    | none => some (.halt .stopped, m, ex)

instance : Behaviour Instruction Footprint where
  act := perform
  stop := Footprint.stop

@[simp] theorem act_instruction :
    (Behaviour.act : Runner → Instruction → Context → Machine → Executor →
      Option (Control × Machine × Executor)) = perform := rfl

@[simp] theorem stop_footprint :
    (Behaviour.stop Instruction : Stack → Footprint → Except Fault (Option Nat)) =
      Footprint.stop := rfl

variable {β φ : Type} [Behaviour β φ]

/-- Whether the operation changes the world. A call does if it sends value. -/
def Operation.changesWorld (o : Operation β φ) (op : Opcode) (stack : Stack) : Except Fault Bool :=
  if o.writes then .ok true
  else if op = Opcode.call then (stack.peek 2).map (· != 0)
  else .ok false

/-- Whether a read-only frame has to refuse the operation. -/
def Executor.refusesWrite (ex : Executor β φ) (op : Opcode) (o : Operation β φ) (stack : Stack) :
    Except Fault Bool :=
  if ex.frame.readOnly then o.changesWorld op stack else .ok false

/-- Looks an operation over: validity, stack, write protection, and the memory it needs. -/
def Executor.vet (ex : Executor β φ) (op : Opcode) (o : Operation β φ) (stack : Stack) :
    Except Fault (Option Nat) := do
  if !o.valid then throw (.invalidCode op)
  o.checkStack stack
  if ← ex.refusesWrite op o stack then throw .writeProtection
  match o.footprint with
  | none => return none
  | some footprint => Footprint.align (← Behaviour.stop β stack footprint)

/-- The task at the position, or the exit if there is none. -/
def Executor.admit (ex : Executor β φ) (m : Machine) : Except Exit (Task β φ) :=
  match m.opcode? with
  | none => .error (.succeed .stopped)
  | some op =>
    let operation := ex.instructions.get op
    match ex.vet op operation m.stack with
    | .error e => .error (.fault e)
    | .ok memoryEnd => .ok ⟨op, operation, memoryEnd⟩

/-- Grows the memory to the length that a task needs. -/
def Machine.grow : Option Nat → Action Machine Unit
  | none => pure ()
  | some memoryEnd => Machine.onMemory (Memory.resize memoryEnd)

/-- The exit that an operation makes of a control, or the machine to go on with. -/
def Task.conclude (task : Task β φ) (control : Control) (m : Machine) : Option Exit × Machine :=
  match control with
  | .proceed =>
    if task.operation.halts then (some (.succeed .stopped), m)
    else if task.operation.jumps then (none, m)
    else (none, m.advance (1 + task.op.pushWidth))
  | .halt h => (some (if task.operation.reverts then .revert else .succeed h), m)
  | .exit exit => (some exit, m)

/-- Performs a task that is paid for. -/
def Task.dispatch (runner : Runner β φ) (context : Context) (task : Task β φ) (m : Machine)
    (ex : Executor β φ) : Option (Progress β φ) :=
  let ex := ex.emit .runtime (.step context.address task.op m.position m.stack m.memory)
  match Behaviour.act runner task.operation.behaviour context m ex with
  | none => none
  | some (control, m, ex) =>
    match task.conclude control m with
    | (none, m) => some (.next m (ex.emit .runtime (.stepResult none m.returnValue)))
    | (some exit, m) =>
      some (.exit exit m (ex.emit .runtime (.stepResult (some exit) m.returnValue)))

/-- One step of a frame. -/
def step (runner : Runner β φ) (context : Context) (m : Machine) (ex : Executor β φ) :
    Option (Progress β φ) :=
  match ex.admit m with
  | .error exit => some (.exit exit m ex)
  | .ok task =>
    match Executor.charge task.op context.address m.stack task.memoryEnd ex with
    | (.error e, ex) => some (.exit (.fault e) m ex)
    | (.ok _, ex) =>
      match Machine.grow task.memoryEnd m with
      | (.error e, m) => some (.exit (.fault e) m ex)
      | (.ok _, m) => task.dispatch runner context m ex

end ContractMachine
