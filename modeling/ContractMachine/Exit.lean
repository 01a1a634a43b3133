import ContractMachine.Opcode

/-!
# How frames end

A frame ends well, faults, or is reverted by an operation that is flagged to do so.
-/

namespace ContractMachine

/-- How a frame ends well. -/
inductive Halt
  | stopped
  | returned
  | suicided
  deriving DecidableEq

/-- Why a frame or one of its operations faults. -/
inductive Fault
  | stackUnderflow
  | stackOverflow
  | invalidJump
  | invalidRange
  | invalidCode (op : Opcode)
  | callTooDeep
  | createCollision
  | outOfGas
  | gasUintOverflow
  | outOfFund
  | writeProtection
  | maxNonce
  | other (reason : String)
  /-- Created code could not be paid for; the account is kept without code. -/
  | codeStoreOutOfGas
  deriving DecidableEq

/-- The end of a frame. -/
inductive Exit
  | succeed (halt : Halt)
  | fault (fault : Fault)
  | revert
  deriving DecidableEq

def Halt.text : Halt → String
  | stopped => "Stopped"
  | returned => "Returned"
  | suicided => "Suicided"

def Fault.text : Fault → String
  | stackUnderflow => "stack underflow"
  | stackOverflow => "stack limit reached"
  | invalidJump => "invalid jump destination"
  | invalidRange => "invalid memory range"
  | invalidCode op => "invalid opcode " ++ op.text
  | callTooDeep => "max call depth exceeded"
  | createCollision => "contract address collision"
  | outOfGas => "out of gas"
  | gasUintOverflow => "gas uint64 overflow"
  | outOfFund => "insufficient balance for transfer"
  | writeProtection => "write protection"
  | maxNonce => "nonce has max value"
  | other reason => reason
  | codeStoreOutOfGas => "contract creation code storage out of gas"

def Exit.text : Exit → String
  | succeed h => "succeed: " ++ h.text
  | fault e => "error: " ++ e.text
  | revert => "revert: Reverted"

/-- Whether the frame ended well. -/
def Exit.isSuccess : Exit → Bool
  | succeed _ => true
  | fault _ | revert => false

end ContractMachine
