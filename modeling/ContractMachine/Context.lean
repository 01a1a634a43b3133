import ContractMachine.Instruction

/-!
# The context of a frame
-/

namespace ContractMachine

/-- On whose behalf a frame runs. -/
structure Context where
  /-- The account whose storage the frame reads and writes. -/
  address : Address
  caller : Address
  /-- The value that the frame sees as sent to it. -/
  value : Word
  deriving DecidableEq

/-- A movement of value between two accounts. -/
structure Transfer where
  source : Address
  target : Address
  value : Word
  deriving DecidableEq

/-- The context of a frame entered through `scheme`, with `target` named in the call and `value`
sent along. -/
def Context.forCall (context : Context) (scheme : CallScheme) (target : Address) (value : Word) :
    Context :=
  match scheme with
  | .call => ⟨target, context.address, value⟩
  | .callCode => ⟨context.address, context.address, value⟩
  | .delegateCall => ⟨context.address, context.caller, context.value⟩

/-- The value that moves when a frame is entered through `scheme`. -/
def Context.transferFor (context : Context) (scheme : CallScheme) (target : Address)
    (value : Word) : Option Transfer :=
  match scheme with
  | .call => some ⟨context.address, target, value⟩
  | .callCode => some ⟨context.address, context.address, value⟩
  | .delegateCall => none

end ContractMachine
