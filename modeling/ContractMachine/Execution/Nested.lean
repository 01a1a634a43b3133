import ContractMachine.Executor

/-!
# Nested frames

Calls and creations enter a frame, have it run, and close it as it ended. What runs the frame is a
parameter, so that the rules for entering and closing stand on their own.
-/

namespace ContractMachine

/-- Runs a frame to its end. None says that it did not end in the steps allowed. -/
abbrev Runner (β : Type := Instruction) (φ : Type := Footprint) :=
  Context → Machine → Executor β φ → Option (Exit × Machine × Executor β φ)

/-- The outcome of a call. -/
structure CallOutcome where
  exit : Exit
  output : Bytes

/-- The outcome of a creation. -/
structure Creation where
  exit : Exit
  created : Option Address
  output : Bytes

/-- A nested frame that is over before it runs, or that is ready to run. -/
inductive Opening (α : Type) (β : Type := Instruction) (φ : Type := Footprint)
  | over (outcome : α) (ex : Executor β φ)
  | ready (m : Machine) (ex : Executor β φ)

namespace Executor

variable {β φ : Type}

/-- A machine under the limits of the rules. -/
def machine (ex : Executor β φ) (code input : Bytes) : Machine :=
  .start code input ex.rules.stackLimit ex.rules.memoryLimit

/-- Whether the frame that runs is deeper than allowed. -/
def isTooDeep (ex : Executor β φ) : Bool :=
  match ex.frame.depth with
  | some depth => ex.rules.callDepthLimit < depth
  | none => false

/-- Makes the account of a frame where there is none. -/
def ensureAccount (address : Address) (ex : Executor β φ) : Executor β φ :=
  if ex.world.exists? address then ex else ex.onWorld fun w => w.createAccount address

/-- Moves the value of a call, if it moves any. -/
def transferIfAny : Option Transfer → Action (Executor β φ) Unit
  | some t => transfer t
  | none => pure ()

/-- Whether a call sends value. -/
def sendsValue : Option Transfer → Bool
  | some t => t.value != 0
  | none => false

/-- The gas limit of the frame of a call that was given `gas`. -/
def callGasLimit (ex : Executor β φ) (gas : Nat) (withStipend : Bool) (t : Option Transfer) : Nat :=
  if withStipend && sendsValue t then Quantity.saturatingAdd gas ex.rules.callStipend else gas

/-- Enters the frame of a call whose gas has been taken. -/
def enterCall (ex : Executor β φ) (code input : Bytes) (gasLimit : Nat) (t : Option Transfer)
    (address : Address) : Opening CallOutcome β φ :=
  let ex := ex.enter gasLimit false
  if ex.isTooDeep then .over ⟨.fault .callTooDeep, #[]⟩ (ex.close .revert)
  else
    match transferIfAny t (ex.ensureAccount address) with
    | (.error e, ex) => .over ⟨.fault e, #[]⟩ (ex.close .revert)
    | (.ok _, ex) =>
      if code.isEmpty then .over ⟨.succeed .stopped, #[]⟩ (ex.close .commit)
      else .ready (ex.machine code input) ex

/-- Takes the gas of a call and enters its frame. -/
def openCall (ex : Executor β φ) (codeAddress : Address) (t : Option Transfer) (input : Bytes)
    (targetGas : Option Nat) (withStipend : Bool) (context : Context) : Opening CallOutcome β φ :=
  let ex := ex.emit .executor (.call codeAddress t input targetGas ex.frame.readOnly context)
  let gas := min (targetGas.getD ex.gas) ex.gas
  match record (.cost gas) ex with
  | (.error e, ex) => .over ⟨.fault e, #[]⟩ ex
  | (.ok _, ex) =>
    ex.enterCall (ex.world.code codeAddress) input (ex.callGasLimit gas withStipend t) t
      context.address

/-- Closes the frame of a call as it ended. -/
def closeCall (exit : Exit) (output : Bytes) (ex : Executor β φ) : CallOutcome × Executor β φ :=
  match exit with
  | .succeed _ =>
    match leave .commit ex with
    | (.ok _, ex) => (⟨exit, output⟩, ex)
    | (.error e, ex) => (⟨.fault e, #[]⟩, ex)
  | .fault _ => (⟨exit, #[]⟩, ex.close .discard)
  | .revert => (⟨exit, output⟩, ex.close .revert)

/-- Runs a nested call to its end. -/
def call (runner : Runner β φ) (ex : Executor β φ) (codeAddress : Address) (t : Option Transfer)
    (input : Bytes) (targetGas : Option Nat) (withStipend : Bool) (context : Context) :
    Option (CallOutcome × Executor β φ) :=
  match ex.openCall codeAddress t input targetGas withStipend context with
  | .over outcome ex => some (outcome, ex)
  | .ready m ex =>
    match runner context m ex with
    | none => none
    | some (exit, m, ex) => some (closeCall exit m.returnValue ex)

/-- Why a creation is refused before anything happens, if it is. -/
def creationFault (ex : Executor β φ) (caller : Address) (value : Word) : Option Fault :=
  if ex.frame.depth.any fun depth => decide (ex.rules.callDepthLimit < depth + 1) then
    some .callTooDeep
  else if ex.world.balance caller < value then some .outOfFund
  else if ex.world.nonce caller = 0xffffffffffffffff then some .maxNonce
  else none

/-- Enters the frame of a creation whose gas and nonce have been taken. -/
def enterCreation (ex : Executor β φ) (caller address : Address) (value : Word) (initCode : Bytes)
    (gasLimit : Nat) : Opening Creation β φ :=
  let ex := ex.enter gasLimit false
  if ex.isCollision address then
    .over ⟨.fault .createCollision, none, #[]⟩ (ex.close .discard)
  else
    match transfer ⟨caller, address, value⟩ (ex.onWorld fun w => w.createAccount address) with
    | (.error e, ex) => .over ⟨.fault e, none, #[]⟩ (ex.close .revert)
    | (.ok _, ex) => .ready (ex.machine initCode #[]) ex

/-- Takes the gas and the nonce of a creation and enters its frame. -/
def openCreation (ex : Executor β φ) (caller address : Address) (value : Word) (initCode : Bytes)
    (targetGas : Option Nat) : Opening Creation β φ :=
  let ex := ex.emit .executor (.create caller address value initCode targetGas)
  match ex.creationFault caller value with
  | some e => .over ⟨.fault e, none, #[]⟩ ex
  | none =>
    let gas := min ex.gas (targetGas.getD ex.gas)
    match record (.cost gas) ex with
    | (.error e, ex) => .over ⟨.fault e, none, #[]⟩ ex
    | (.ok _, ex) =>
      let ex := ex.onWorld fun w => w.setNonce caller (w.nonce caller + 1)
      ex.enterCreation caller address value initCode gas

/-- Pays for the code that a creation leaves behind, and closes its frame. -/
def depositCode (address : Address) (halt : Halt) (code : Bytes) (ex : Executor β φ) :
    Creation × Executor β φ :=
  match record (.deposit code.size) ex with
  | (.ok _, ex) =>
    match leave .commit ex with
    | (.ok _, ex) =>
      (⟨.succeed halt, some address, code⟩, ex.onWorld fun w => w.setCode address code)
    | (.error e, ex) => (⟨.fault e, none, #[]⟩, ex.onWorld fun w => w.setCode address code)
  | (.error e, ex) =>
    if ex.rules.failsOnUnpaidCode then
      (⟨.fault e, none, #[]⟩, ex.failMeter.close .discard)
    else
      match leave .commit ex with
      | (.ok _, ex) => (⟨.fault .codeStoreOutOfGas, some address, #[]⟩, ex)
      | (.error e, ex) => (⟨.fault e, none, #[]⟩, ex)

/-- Closes the frame of a creation as it ended. -/
def closeCreation (address : Address) (exit : Exit) (output : Bytes) (ex : Executor β φ) :
    Creation × Executor β φ :=
  match exit with
  | .succeed halt => depositCode address halt output ex
  | .fault e => (⟨.fault e, none, #[]⟩, ex.failMeter.close .discard)
  | .revert => (⟨.revert, none, output⟩, ex.close .revert)

/-- Runs a creation to its end. -/
def create (runner : Runner β φ) (ex : Executor β φ) (caller : Address) (value : Word)
    (initCode : Bytes) (targetGas : Option Nat) : Option (Creation × Executor β φ) :=
  let address := ex.nextCreation caller
  match ex.openCreation caller address value initCode targetGas with
  | .over outcome ex => some (outcome, ex)
  | .ready m ex =>
    match runner ⟨address, caller, value⟩ m ex with
    | none => none
    | some (exit, m, ex) => some (closeCreation address exit m.returnValue ex)

end Executor

end ContractMachine
