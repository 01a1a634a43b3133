import ContractMachine.Execution.Run
import ContractMachine.GasPool
import ContractMachine.Text.Hex

/-!
# Messages

A message is applied to the world of an executor and to the gas pool of its block. It is rejected
if it could never be valid here; then nothing changes. Otherwise it is settled, whether or not its
execution fails, and the gas it used is gone.
-/

namespace ContractMachine

structure Message where
  sender : Address
  /-- None for a creation. -/
  recipient : Option Address
  value : Word
  nonce : UInt64
  /-- Whether the nonce has to be the sender's. -/
  checksNonce : Bool
  /-- The input of a call, or the init code of a creation. -/
  data : Bytes
  gasLimit : Nat

/-- What an accepted message came to. -/
structure Receipt where
  output : Bytes
  failed : Bool
  /-- Refunds deducted. -/
  usedGas : Nat
  exit : Exit
  created : Option Address

/-- Why a message is rejected. -/
inductive Rejection
  | invalidNonce (address : Address) (expected got : UInt64)
  | nonceMax (address : Address)
  | gasLimitReached (shortage : GasShortage)
  | insufficientBalance (address : Address) (value : Word)
  deriving DecidableEq

namespace Rejection

def text : Rejection → String
  | invalidNonce address expected got =>
    "invalid nonce for " ++ Hex.ofAddress address ++ ": expected " ++
      toString expected.toNat ++ ", got " ++ toString got.toNat
  | nonceMax address => "nonce of " ++ Hex.ofAddress address ++ " has max value"
  | gasLimitReached shortage => shortage.text
  | insufficientBalance address value =>
    "insufficient balance of " ++ Hex.ofAddress address ++ " to transfer " ++
      toString value.toNat

/-- The name under which fixtures expect a rejection. -/
def name : Rejection → String
  | invalidNonce _ _ _ => "InvalidNonce"
  | nonceMax _ => "NonceMax"
  | gasLimitReached _ => "GasLimitReached"
  | insufficientBalance _ _ => "InsufficientBalance"

end Rejection

/-- What applying a message leaves behind. -/
structure Applied where
  result : Except Rejection Receipt
  executor : Executor
  pool : GasPool

/-- Whether a message executes a creation. -/
def Message.isCreation (m : Message) : Bool := m.recipient.isNone

/-- The nonce part of the checks before a message touches anything. -/
def Message.nonceFault (m : Message) (nonce : UInt64) : Option Rejection :=
  if m.checksNonce && nonce != m.nonce then some (.invalidNonce m.sender nonce m.nonce)
  else if nonce = 0xffffffffffffffff then some (.nonceMax m.sender)
  else none

namespace Executor

/-- Executes a message whose sender has an account. -/
def executeMessage (ex : Executor) (m : Message) : Option (Creation × Executor) :=
  match m.recipient with
  | none => ex.transactCreate m.sender m.value m.data m.gasLimit
  | some recipient =>
    let ex := ex.ensureAccount recipient
    let ex := ex.onWorld fun w => w.setNonce m.sender (w.nonce m.sender + 1)
    (ex.transactCall m.sender recipient m.value m.data m.gasLimit).map fun (outcome, ex) =>
      (⟨outcome.exit, none, outcome.output⟩, ex)

/-- Settles an executed message. Only the transfer of its own value can run out of funds, and
then the message is rejected after all. -/
def settleMessage (ex : Executor) (m : Message) (pool : GasPool) (snapshot : Nat)
    (outcome : Creation) : Option Applied :=
  if outcome.exit = .fault .outOfFund then
    some ⟨.error (.insufficientBalance m.sender m.value), ex.onWorld fun w => w.revertTo snapshot,
      pool.add m.gasLimit⟩
  else
    ex.usedGas?.map fun used =>
      ⟨.ok ⟨outcome.output, !outcome.exit.isSuccess, used, outcome.exit, outcome.created⟩,
        ex.onWorld World.settle, pool.add (m.gasLimit - used)⟩

/-- Applies a message. None says that its execution did not end in the steps allowed, or that no
gas can be told that it used. -/
def applyMessage (ex : Executor) (m : Message) (pool : GasPool) : Option Applied :=
  match m.nonceFault (ex.world.nonce m.sender) with
  | some rejection => some ⟨.error rejection, ex, pool⟩
  | none =>
    match pool.sub m.gasLimit with
    | .error shortage => some ⟨.error (.gasLimitReached shortage), ex, pool⟩
    | .ok rest =>
      match (ex.ensureAccount m.sender).executeMessage m with
      | none => none
      | some (outcome, after) => after.settleMessage m rest ex.world.snapshot outcome

end Executor

end ContractMachine
