import ContractMachine.Word

/-!
# Hexadecimal text

Digits are written in lower case and read in either case. Words are written with as few digits as
possible, addresses and hashes with all of their digits.
-/

namespace ContractMachine.Hex

/-- The value of a digit. -/
def digit? (c : Char) : Option Nat :=
  if '0' ≤ c ∧ c ≤ '9' then some (c.toNat - '0'.toNat)
  else if 'a' ≤ c ∧ c ≤ 'f' then some (c.toNat - 'a'.toNat + 10)
  else if 'A' ≤ c ∧ c ≤ 'F' then some (c.toNat - 'A'.toNat + 10)
  else none

/-- The values of all characters, if each is a digit. -/
def digits? (text : List Char) : Option (List Nat) := text.mapM digit?

/-- The number spelled by digit values. -/
def number (digits : List Nat) : Nat := digits.foldl (fun n d => n * 16 + d) 0

/-- Joins digit values two by two; an odd one out has no reading. -/
def pairUp : List Nat → Option (List UInt8)
  | [] => some []
  | [_] => none
  | high :: low :: rest => (pairUp rest).map (UInt8.ofNat (high * 16 + low) :: ·)

/-- The byte string that an even number of digits spells. -/
def bytes? (text : List Char) : Option Bytes :=
  ((digits? text).bind pairUp).map List.toArray

/-- The text without one leading `0x`, if it has one. -/
def stripMark : List Char → List Char
  | '0' :: 'x' :: rest => rest
  | text => text

/-- The two digits of a byte. -/
def byteText (b : UInt8) : List Char :=
  [Nat.digitChar (b.toNat / 16), Nat.digitChar (b.toNat % 16)]

/-- All digits of a byte string, two for each byte. -/
def ofBytes (bytes : Bytes) : String := String.ofList (bytes.toList.flatMap byteText)

/-- A number with `0x` and no leading zero. -/
def ofNat (n : Nat) : String := "0x" ++ String.ofList (Nat.toDigits 16 n)

/-- The address with all of its 40 digits. -/
def ofAddress (a : Address) : String := "0x" ++ ofBytes a.toBytes

/-- The word with all of its 64 digits. -/
def ofHash (w : Word) : String := "0x" ++ ofBytes w.toBytes

end ContractMachine.Hex
