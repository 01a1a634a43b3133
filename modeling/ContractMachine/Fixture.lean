import ContractMachine.Json.Record
import ContractMachine.StateTest

/-!
# Fixtures

A fixture is a JSON text that names state tests. Words, addresses and byte strings are strings of
hexadecimal digits, with or without `0x` in front; nonces and gas are plain numbers. In words and
addresses blanks may stand between the digits. They are passed over, but they count as characters.
-/

namespace ContractMachine

/-- The tests of a fixture by their names. -/
abbrev Fixture := Std.ExtTreeMap String StateTest

namespace Fixture

/-- The digits of a text in pairs. The first digit makes a pair of its own if the number of
characters is odd, and a last digit that is left without a partner is dropped. -/
def pairedDigits? (text : List Char) : Option (List Nat) :=
  (Hex.digits? (text.filter fun c => !Text.isBlank c)).map fun digits =>
    let digits := if text.length % 2 = 1 then 0 :: digits else digits
    digits.take (digits.length / 2 * 2)

/-- A word in at least one and at most 64 characters. -/
def word? (text : String) : Option Word :=
  let text := Hex.stripMark text.toList
  if 1 ≤ text.length ∧ text.length ≤ 64 then
    (pairedDigits? text).map fun digits => BitVec.ofNat 256 (Hex.number digits)
  else none

/-- An address in exactly 40 characters. Digits that blanks have kept out are zeros at the end. -/
def address? (text : String) : Option Address :=
  let text := Hex.stripMark text.toList
  if text.length = 40 then
    (pairedDigits? text).map fun digits =>
      BitVec.ofNat 160 (Hex.number (digits ++ List.replicate (40 - digits.length) 0))
  else none

/-- A byte string in an even number of digits. -/
def bytes? (text : String) : Option Bytes := Hex.bytes? (Hex.stripMark text.toList)

def readWord (j : Json) : Option Word := j.text?.bind word?

def readAddress (j : Json) : Option Address := j.text?.bind address?

def readBytes (j : Json) : Option Bytes := j.text?.bind bytes?

def readNonce (j : Json) : Option UInt64 := j.quantity?.map UInt64.ofNat

def forkNamed? (name : String) : Option Fork :=
  if name = "Frontier" then some .frontier
  else if name = "Homestead" then some .homestead
  else none

/-- A fork by its name. The name may also be the only field of an object, with null as value. -/
def readFork : Json → Option Fork
  | .string (some name) => forkNamed? name
  | .object [(some name, .null)] => forkNamed? name
  | _ => none

/-- The block of a message, and the gas left in it. -/
def readEnvironment (j : Json) : Option (Environment × Option Nat) := do
  let fields ← j.record? ["gasPrice", "blockNumber", "coinbase", "timestamp", "difficulty",
    "blockGasLimit", "gasPool"]
  let gasPrice ← fields.getD "gasPrice" readWord 0
  let blockNumber ← fields.getD "blockNumber" readWord 0
  let coinbase ← fields.getD "coinbase" readAddress 0
  let timestamp ← fields.getD "timestamp" readWord 0
  let difficulty ← fields.getD "difficulty" readWord 0
  let gasLimit ← fields.getD "blockGasLimit" readWord 0
  let gasPool ← fields.getD "gasPool" (Json.nullable Json.quantity?) none
  return (⟨gasPrice, #[], blockNumber, coinbase, timestamp, difficulty, gasLimit⟩, gasPool)

def readAccount (j : Json) : Option AccountContent := do
  let fields ← j.record? ["balance", "nonce", "code", "storage"]
  let balance ← fields.getD "balance" readWord 0
  let nonce ← fields.getD "nonce" readNonce 0
  let code ← fields.getD "code" readBytes #[]
  let storage ← fields.getD "storage" (Json.map? word? readWord) ∅
  return ⟨balance, nonce, code, storage⟩

def readAccounts : Json → Option (Std.ExtTreeMap Address AccountContent) :=
  Json.map? address? readAccount

def readMessage (j : Json) : Option Message := do
  let fields ← j.record? ["from", "to", "value", "nonce", "checkNonce", "data", "gasLimit"]
  let sender ← fields.required "from" readAddress
  let recipient ← fields.getD "to" (Json.nullable readAddress) none
  let value ← fields.getD "value" readWord 0
  let nonce ← fields.getD "nonce" readNonce 0
  let checksNonce ← fields.getD "checkNonce" Json.flag? true
  let data ← fields.getD "data" readBytes #[]
  let gasLimit ← fields.required "gasLimit" Json.quantity?
  return ⟨sender, recipient, value, nonce, checksNonce, data, gasLimit⟩

def readExpectation (j : Json) : Option Expectation := do
  let fields ← j.record? ["rejected", "failed", "usedGas", "returnValue", "post", "absent"]
  let rejected ← fields.getD "rejected" (Json.nullable Json.text?) none
  let failed ← fields.getD "failed" Json.flag? false
  let usedGas ← fields.getD "usedGas" (Json.nullable Json.quantity?) none
  let output ← fields.getD "returnValue" (Json.nullable readBytes) none
  let post ← fields.getD "post" readAccounts ∅
  let absent ← fields.getD "absent" (Json.list? readAddress) []
  return ⟨rejected, failed, usedGas, output, post, absent⟩

def readTest (j : Json) : Option StateTest := do
  let fields ← j.record? ["fork", "env", "pre", "message", "expect"]
  let fork ← fields.required "fork" readFork
  let (environment, gasPool) ← fields.getD "env" readEnvironment (.zero, none)
  let pre ← fields.required "pre" readAccounts
  let message ← fields.required "message" readMessage
  let expect ← fields.required "expect" readExpectation
  return ⟨fork, environment, gasPool, pre, message, expect⟩

/-- The fixture that a text spells. -/
def ofText? (text : String) : Option Fixture :=
  (Json.ofText? text).bind (Json.map? some readTest)

/-- The verdict on each test, in the order of the names. -/
def verdicts (fixture : Fixture) : List (String × Verdict) :=
  fixture.toList.map fun (name, test) => (name, test.judge)

end Fixture

end ContractMachine
