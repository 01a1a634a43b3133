import ContractMachine.Word
import Mathlib.Algebra.Group.Nat.Defs
import Mathlib.Tactic.Lemma

/-!
# The bytes of a word

A word is its 32 bytes, the most significant first: the word that 32 bytes spell has these bytes,
and no other word has.
-/

namespace ContractMachine.Proofs

/-- The number that the bytes spell, the least significant first. -/
def littleEndian : List UInt8 → Nat
  | [] => 0
  | byte :: rest => littleEndian rest * 256 + byte.toNat

lemma toNat_eq_littleEndian (bytes : Bytes) :
    bytes.toNat = littleEndian bytes.toList.reverse := by
  rw [Bytes.toNat, ← Array.foldl_toList, ← List.foldr_reverse]
  induction bytes.toList.reverse with
  | nil => rfl
  | cons byte rest ih => rw [List.foldr_cons, ih, littleEndian]

/-- The byte of weight `j`, and zero past the last one. -/
lemma byte_littleEndian (bytes : List UInt8) (j : Nat) :
    UInt8.ofNat (littleEndian bytes >>> (8 * j)) = bytes.getD j 0 := by
  induction bytes generalizing j with
  | nil => simp [littleEndian]
  | cons byte rest ih =>
    have hlast : (littleEndian rest * 256 + byte.toNat) >>> 8 = littleEndian rest := by
      have hbyte := byte.toNat_lt
      rw [Nat.shiftRight_eq_div_pow]
      omega
    cases j with
    | zero =>
      apply UInt8.toNat_inj.mp
      have hbyte := byte.toNat_lt
      simp [littleEndian]
    | succ j =>
      have hweight : 8 * (j + 1) = 8 + 8 * j := by omega
      rw [littleEndian, hweight, Nat.shiftRight_add, hlast, ih, List.getD_cons_succ]

/-- Of the number only the bits of the word matter to its bytes. -/
lemma byteAt_ofNat (n : Nat) {k : Nat} (hk : k < 32) :
    Word.byteAt (BitVec.ofNat 256 n) k = UInt8.ofNat (n >>> (8 * (31 - k))) := by
  rw [Word.byteAt, if_pos hk, BitVec.toNat_ofNat]
  apply UInt8.toNat_inj.mp
  rw [UInt8.toNat_ofNat', UInt8.toNat_ofNat']
  apply Nat.eq_of_testBit_eq
  intro i
  simp only [Nat.testBit_mod_two_pow, Nat.testBit_shiftRight]
  by_cases hi : i < 8
  · have hbit : 8 * (31 - k) + i < 256 := by omega
    simp [hbit]
  · simp [hi]

theorem byteAt_ofBytes {bytes : Bytes} (hsize : bytes.size = 32) {k : Nat} (hk : k < 32) :
    (Word.ofBytes bytes).byteAt k = bytes.at0 k := by
  rw [Word.ofBytes, byteAt_ofNat _ hk, toNat_eq_littleEndian, byte_littleEndian, Bytes.at0]
  have hlength : bytes.toList.length = 32 := by simpa using hsize
  have hplace : bytes.toList.length - 1 - (31 - k) = k := by omega
  rw [List.getD_eq_getElem?_getD, List.getElem?_reverse (by omega), hplace,
    Array.getD_eq_getD_getElem?, Array.getElem?_toList]

theorem eq_of_byteAt {a b : Word} (h : ∀ k < 32, a.byteAt k = b.byteAt k) : a = b := by
  apply BitVec.eq_of_toNat_eq
  apply Nat.eq_of_testBit_eq
  intro i
  by_cases hi : i < 256
  · -- Bit `i` is bit `i % 8` of the byte with the weight `i / 8`.
    have hk : 31 - i / 8 < 32 := by omega
    have hplace : 8 * (31 - (31 - i / 8)) + i % 8 = i := by omega
    have hbit : i % 8 < 8 := Nat.mod_lt _ (by decide)
    have hbyte := congrArg UInt8.toNat (h _ hk)
    rw [Word.byteAt, Word.byteAt, if_pos hk, if_pos hk, UInt8.toNat_ofNat', UInt8.toNat_ofNat']
      at hbyte
    have htest := congrArg (fun n => Nat.testBit n (i % 8)) hbyte
    simpa only [Nat.testBit_mod_two_pow, Nat.testBit_shiftRight, hplace, hbit, decide_true,
      Bool.true_and] using htest
  · have hbound (w : Word) : w.toNat.testBit i = false :=
      Nat.testBit_lt_two_pow (Nat.lt_of_lt_of_le w.isLt (Nat.pow_le_pow_right (by decide)
        (Nat.le_of_not_lt hi)))
    rw [hbound a, hbound b]

/-- The word whose bytes are read off the source. -/
lemma ofBytes_ofFn (w : Word) : Word.ofBytes (Array.ofFn fun k : Fin 32 => w.byteAt k) = w := by
  apply eq_of_byteAt
  intro k hk
  rw [byteAt_ofBytes Array.size_ofFn hk, Bytes.at0, Array.getD_eq_getD_getElem?,
    Array.getElem?_ofFn, dif_pos hk, Option.getD_some]

end ContractMachine.Proofs
