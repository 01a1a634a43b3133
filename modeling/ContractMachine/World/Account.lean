import ContractMachine.Word
import Std.Data.ExtTreeMap

/-!
# Accounts

Storage is a finite map from slots to words; a slot outside the map reads as zero.
-/

namespace ContractMachine

instance Word.transOrd : Std.TransOrd Word := inferInstance

instance Address.transOrd : Std.TransOrd Address := inferInstance

/-- The slots of an account that hold a word. -/
abbrev Storage := Std.ExtTreeMap Word Word

instance Storage.decidableEq : DecidableEq Storage := inferInstance

/-- A message that a contract leaves for readers outside. -/
structure Log where
  address : Address
  topics : List Word
  data : Bytes
  deriving DecidableEq

structure Account where
  nonce : UInt64
  balance : Word
  storage : Storage
  code : Bytes
  deriving DecidableEq

namespace Account

def empty : Account := ⟨0, 0, ∅, #[]⟩

/-- The word in a slot. -/
def load (a : Account) (slot : Word) : Word := a.storage.getD slot 0

/-- Puts a word into a slot; zero empties the slot. -/
def store (a : Account) (slot value : Word) : Account :=
  { a with storage := if value = 0 then a.storage.erase slot else a.storage.insert slot value }

/-- Gives a slot back what it held. -/
def restore (a : Account) (slot : Word) : Option Word → Account
  | some value => { a with storage := a.storage.insert slot value }
  | none => { a with storage := a.storage.erase slot }

end Account

end ContractMachine
