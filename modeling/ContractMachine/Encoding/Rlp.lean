import ContractMachine.Word

/-!
# Recursive length encoding

A byte string or a list is written as its length and its content. A single byte below 128 stands
for itself, and a number is the byte string of its digits without leading zeros.
-/

namespace ContractMachine.Rlp

/-- The length of a content, marked as a string (`0x80`) or a list (`0xc0`). -/
def lengthMark (kind length : Nat) : Bytes :=
  if length < 56 then #[UInt8.ofNat (kind + length)]
  else
    let digits := Bytes.ofNatTrimmed length
    #[UInt8.ofNat (kind + 55 + digits.size)] ++ digits

/-- A byte string. -/
def string (content : Bytes) : Bytes :=
  if content.size = 1 ∧ content.at0 0 < 0x80 then content
  else lengthMark 0x80 content.size ++ content

/-- A number. -/
def number (n : Nat) : Bytes := string (Bytes.ofNatTrimmed n)

/-- A list of items that are already written. -/
def list (items : List Bytes) : Bytes :=
  let content := items.foldl (· ++ ·) #[]
  lengthMark 0xc0 content.size ++ content

end ContractMachine.Rlp
