import ContractMachine.Execution.Step

/-!
# Runs and transactions

A frame runs step by step until it exits. The frames that a step enters run in the same way, with
one step less allowed.
-/

namespace ContractMachine

variable {β φ : Type} [Behaviour β φ]

/-- Runs a frame for at most `fuel` steps, and each nested frame for as many as are left. -/
def run : (fuel : Nat) → Runner β φ
  | 0, _, _, _ => none
  | fuel + 1, context, m, ex =>
    match step (run fuel) context m ex with
    | none => none
    | some (.next m ex) => run fuel context m ex
    | some (.exit exit m ex) => some (exit, m, ex)

namespace Executor

/-- Steps allowed beyond the gas of a frame. Only operations that are priced at nothing can use
them. -/
def freeSteps : Nat := 0x10000000000

/-- The steps allowed to a frame. Where each step costs gas, one more than the gas is enough. -/
def stepAllowance (ex : Executor β φ) : Nat := ex.gas + 1 + freeSteps

/-- Runs a frame to its end. -/
def execute (context : Context) (m : Machine) (ex : Executor β φ) :
    Option (Exit × Machine × Executor β φ) :=
  run ex.stepAllowance context m ex

/-- Runs a nested call with the gas limit of the frame deciding the steps allowed. -/
def nestedCall (ex : Executor β φ) (codeAddress : Address) (t : Option Transfer) (input : Bytes)
    (targetGas : Option Nat) (withStipend : Bool) (context : Context) :
    Option (CallOutcome × Executor β φ) :=
  ex.call (fun context m ex => ex.execute context m) codeAddress t input targetGas withStipend
    context

/-- Runs a nested creation with the gas limit of the frame deciding the steps allowed. -/
def nestedCreation (ex : Executor β φ) (caller : Address) (value : Word) (initCode : Bytes)
    (targetGas : Option Nat) : Option (Creation × Executor β φ) :=
  ex.create (fun context m ex => ex.execute context m) caller value initCode targetGas

/-- Runs a call as a transaction. The nonce of the caller is not touched. -/
def transactCall (ex : Executor β φ) (caller address : Address) (value : Word) (input : Bytes)
    (gasLimit : Nat) : Option (CallOutcome × Executor β φ) :=
  let ex := (ex.reset caller gasLimit).emit .executor
    (.transactCall caller address value input gasLimit)
  match ex.nestedCall address (some ⟨caller, address, value⟩) input (some gasLimit) false
      ⟨address, caller, value⟩ with
  | none => none
  | some (outcome, ex) => some (outcome, ex.emit .executor (.exit outcome.exit outcome.output))

/-- Runs a creation as a transaction. It raises the nonce of the caller. -/
def transactCreate (ex : Executor β φ) (caller : Address) (value : Word) (initCode : Bytes)
    (gasLimit : Nat) : Option (Creation × Executor β φ) :=
  let ex := ex.reset caller gasLimit
  let ex := ex.emit .executor
    (.transactCreate caller value initCode gasLimit (ex.nextCreation caller))
  match ex.nestedCreation caller value initCode (some gasLimit) with
  | none => none
  | some (outcome, ex) => some (outcome, ex.emit .executor (.exit outcome.exit outcome.output))

end Executor

end ContractMachine
