import ContractMachine.Quantity

/-!
# Words, addresses and byte strings

A `Word` has 256 bits and wraps. An `Address` is the low 160 bits of a word. Byte strings are
arrays of bytes; a word is written as its 32 bytes, most significant first.
-/

namespace ContractMachine

/-- A 256-bit machine word. -/
abbrev Word := BitVec 256

/-- The 160-bit name of an account. -/
abbrev Address := BitVec 160

/-- A byte string. -/
abbrev Bytes := Array UInt8

namespace Bytes

/-- The number that the bytes spell, most significant first. -/
def toNat (bytes : Bytes) : Nat := bytes.foldl (fun n b => n * 256 + b.toNat) 0

/-- Byte `i`, and zero past the end. -/
def at0 (bytes : Bytes) (i : Nat) : UInt8 := bytes.getD i 0

/-- Exactly `size` bytes from `offset` on, zero past the end. -/
def window (bytes : Bytes) (offset size : Nat) : Bytes :=
  Array.ofFn fun i : Fin size => bytes.at0 (offset + i)

/-- The `width` low bytes of `n`, most significant first. -/
def ofNat (width n : Nat) : Bytes :=
  Array.ofFn fun i : Fin width => UInt8.ofNat (n >>> (8 * (width - 1 - i)))

/-- The bytes of `n` with no leading zero byte; zero has none. -/
def ofNatTrimmed (n : Nat) : Bytes := ofNat (if n = 0 then 0 else n.log2 / 8 + 1) n

theorem size_window (bytes : Bytes) (offset size : Nat) :
    (bytes.window offset size).size = size := by
  simp [window]

end Bytes

namespace Word

/-- The number of words. -/
def count : Nat :=
  0x10000000000000000000000000000000000000000000000000000000000000000

/-- The word that at most 32 bytes spell; longer strings keep their last 32 bytes. -/
def ofBytes (bytes : Bytes) : Word := BitVec.ofNat 256 bytes.toNat

/-- Byte `k` of the word, counted from the most significant; zero from byte 32 on. -/
def byteAt (w : Word) (k : Nat) : UInt8 :=
  if k < 32 then UInt8.ofNat (w.toNat >>> (8 * (31 - k))) else 0

/-- The 32 bytes of the word. -/
def toBytes (w : Word) : Bytes := Array.ofFn fun k : Fin 32 => w.byteAt k

/-- One for true and zero for false. -/
def ofBool (b : Bool) : Word := if b then 1 else 0

/-- The address in the low 160 bits. -/
def toAddress (w : Word) : Address := w.setWidth 160

/-- The word as a quantity, if it is one. -/
def toQuantity? (w : Word) : Option Nat := if w.toNat < Quantity.limit then some w.toNat else none

/-- Addition that stays at the largest word. -/
def saturatingAdd (a b : Word) : Word :=
  if a.toNat + b.toNat < count then a + b else BitVec.allOnes 256

/-- The difference, if it is not below zero. -/
def checkedSub (a b : Word) : Option Word := if b ≤ a then some (a - b) else none

/-- Subtraction that stays at zero. -/
def saturatingSub (a b : Word) : Word := if b.toNat ≤ a.toNat then a - b else 0

/-- Multiplication that stays at the largest word. -/
def saturatingMul (a b : Word) : Word :=
  if a.toNat * b.toNat < count then a * b else BitVec.allOnes 256

theorem toQuantity?_eq {w : Word} (h : w.toNat < Quantity.limit) : w.toQuantity? = some w.toNat :=
  if_pos h

theorem checkedSub_eq {a b : Word} (h : b ≤ a) : checkedSub a b = some (a - b) := if_pos h

end Word

/-- The address as a word, with 96 leading zero bits. -/
def Address.toWord (a : Address) : Word := a.setWidth 256

/-- The 20 bytes of the address. -/
def Address.toBytes (a : Address) : Bytes := Bytes.ofNat 20 a.toNat

end ContractMachine
