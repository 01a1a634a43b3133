import ContractMachine.Message

/-!
# State tests

A state test gives the accounts before a message, the message, and what has to come of it. It is
judged by applying the message to a world of those accounts under the rules of its fork. The
verdict is the first expectation that is not met: the rejection, then the failed flag, the used
gas and the output, then each expected account in the order of addresses, then the accounts that
have to be absent.
-/

namespace ContractMachine

/-- The content of an account as a test gives it, zero words in storage included. -/
structure AccountContent where
  balance : Word
  nonce : UInt64
  code : Bytes
  storage : Storage

namespace AccountContent

/-- The account of this content. A slot that holds zero is an empty slot. -/
def toAccount (content : AccountContent) : Account where
  nonce := content.nonce
  balance := content.balance
  storage := content.storage.filter fun _ value => value != 0
  code := content.code

end AccountContent

/-- What has to come of a message. -/
structure Expectation where
  /-- The name of the rejection, if the message has to be rejected. -/
  rejected : Option String
  failed : Bool
  usedGas : Option Nat
  output : Option Bytes
  /-- Accounts that have to be there with this content. -/
  post : Std.ExtTreeMap Address AccountContent
  /-- Addresses that may have no account. -/
  absent : List Address

structure StateTest where
  fork : Fork
  environment : Environment
  /-- Gas left in the block; the gas limit of the message if it is not given. -/
  gasPool : Option Nat
  pre : Std.ExtTreeMap Address AccountContent
  message : Message
  expect : Expectation

/-- The parts of an account that are compared, in this order. -/
inductive AccountPart
  | balance
  | nonce
  | code
  | storage
  deriving DecidableEq

def AccountPart.text : AccountPart → String
  | balance => "balance"
  | nonce => "nonce"
  | code => "code"
  | storage => "storage"

/-- An expectation that is not met. -/
inductive Mismatch
  | unexpectedRejection (rejection : Rejection)
  | missingRejection (expected : String)
  | wrongRejection (expected got : String)
  | failedFlag (expected got : Bool)
  | usedGas (expected got : Nat)
  | output (expected got : Bytes)
  | missingAccount (address : Address)
  | unexpectedAccount (address : Address)
  | account (address : Address) (part : AccountPart)
  /-- The execution did not end in the steps allowed. -/
  | unfinished
  deriving DecidableEq

def Mismatch.text : Mismatch → String
  | unexpectedRejection rejection => "message rejected: " ++ rejection.text
  | missingRejection expected => "message applied, expected rejection " ++ expected
  | wrongRejection expected got => "rejected with " ++ got ++ ", expected " ++ expected
  | failedFlag expected got =>
    "failed flag is " ++ toString got ++ ", expected " ++ toString expected
  | usedGas expected got => "used " ++ toString got ++ " gas, expected " ++ toString expected
  | output expected got =>
    "returned 0x" ++ Hex.ofBytes got ++ ", expected 0x" ++ Hex.ofBytes expected
  | missingAccount address => "account " ++ Hex.ofAddress address ++ " is missing"
  | unexpectedAccount address => "account " ++ Hex.ofAddress address ++ " should not exist"
  | account address part => part.text ++ " of account " ++ Hex.ofAddress address ++ " differs"
  | unfinished => "execution did not end"

/-- A verdict on a test or a part of it. -/
abbrev Verdict := Except Mismatch Unit

/-- Passes if the condition holds. -/
def Verdict.require (condition : Bool) (mismatch : Mismatch) : Verdict :=
  if condition then .ok () else .error mismatch

namespace Expectation

/-- Judges the outcome of the message itself. -/
def judgeResult (e : Expectation) : Except Rejection Receipt → Verdict
  | .ok receipt =>
    match e.rejected with
    | some expected => .error (.missingRejection expected)
    | none => do
      Verdict.require (receipt.failed == e.failed) (.failedFlag e.failed receipt.failed)
      match e.usedGas with
      | some expected =>
        Verdict.require (receipt.usedGas == expected) (.usedGas expected receipt.usedGas)
      | none => .ok ()
      match e.output with
      | some expected =>
        Verdict.require (receipt.output == expected) (.output expected receipt.output)
      | none => .ok ()
  | .error rejection =>
    match e.rejected with
    | some expected =>
      Verdict.require (rejection.name == expected) (.wrongRejection expected rejection.name)
    | none => .error (.unexpectedRejection rejection)

/-- Judges one account that has to be there. -/
def judgeAccount (w : World) (address : Address) (content : AccountContent) : Verdict :=
  match w.account? address with
  | none => .error (.missingAccount address)
  | some got => do
    let expected := content.toAccount
    Verdict.require (got.balance == expected.balance) (.account address .balance)
    Verdict.require (got.nonce == expected.nonce) (.account address .nonce)
    Verdict.require (got.code == expected.code) (.account address .code)
    Verdict.require (decide (got.storage = expected.storage)) (.account address .storage)

/-- Judges the accounts that the message leaves behind. -/
def judgeWorld (e : Expectation) (w : World) : Verdict := do
  e.post.toList.forM fun (address, content) => judgeAccount w address content
  e.absent.forM fun address => Verdict.require (!w.exists? address) (.unexpectedAccount address)

end Expectation

namespace StateTest

/-- The world before the message. -/
def world (t : StateTest) : World := .ofAccounts (t.pre.map fun _ content => content.toAccount)

/-- Applies the message of a test. -/
def apply (t : StateTest) : Option Applied :=
  (Executor.new t.world (.ofFork t.fork) t.environment).applyMessage t.message
    (.ofNat (t.gasPool.getD t.message.gasLimit))

def judge (t : StateTest) : Verdict :=
  match t.apply with
  | none => .error .unfinished
  | some applied => do
    t.expect.judgeResult applied.result
    t.expect.judgeWorld applied.executor.world

end StateTest

end ContractMachine
