import ContractMachine.Word.Arithmetic
import Mathlib.Algebra.Group.Nat.Defs
import Mathlib.Tactic.Lemma

/-!
# Sign extension

Extending the sign of a byte reads, at every place above the sign bit of the byte, that bit. This
one description covers all bytes, those that no word has included, and what follows from it is a
matter of the places alone.
-/

namespace ContractMachine.Proofs

/-- The bits below `bit`. -/
lemma getLsbD_lowMask {bit : Nat} (hbit : bit < 256) (i : Nat) :
    (((1 <<< bit : Nat) : Word) - 1).getLsbD i = decide (i < bit) := by
  have hvalue : (((1 <<< bit : Nat) : Word) - 1).toNat = 2 ^ bit - 1 := by
    have hpower : 2 ^ bit < 2 ^ 256 := Nat.pow_lt_pow_right (by decide) hbit
    have hpos : 0 < 2 ^ bit := Nat.two_pow_pos bit
    have hone : (1 : Word).toNat = 1 := rfl
    rw [BitVec.toNat_sub, BitVec.natCast_eq_ofNat, BitVec.toNat_ofNat, hone, Nat.shiftLeft_eq,
      Nat.one_mul, Nat.mod_eq_of_lt hpower]
    omega
  rw [BitVec.getLsbD, hvalue, Nat.testBit_two_pow_sub_one]

lemma getLsbD_signExtend (k x : Word) {i : Nat} (hi : i < 256) :
    (Word.signExtend k x).getLsbD i = x.getLsbD (min i (8 * k.toNat + 7)) := by
  unfold Word.signExtend
  by_cases hk : k.toNat < 32
  · have hbit : 8 * k.toNat + 7 < 256 := by omega
    rw [if_pos hk]
    dsimp only
    obtain hbelow | habove := Nat.lt_or_ge i (8 * k.toNat + 7)
    · rw [Nat.min_eq_left (Nat.le_of_lt hbelow)]
      cases hsign : x.getLsbD (8 * k.toNat + 7) with
      | true =>
        simp only [if_true, BitVec.getLsbD_or, BitVec.getLsbD_not, getLsbD_lowMask hbit, hbelow,
          decide_true, Bool.not_true, Bool.and_false, Bool.or_false]
      | false =>
        simp only [Bool.false_eq_true, if_false, BitVec.getLsbD_and, getLsbD_lowMask hbit, hbelow,
          decide_true, Bool.and_true]
    · have hnot : ¬i < 8 * k.toNat + 7 := Nat.not_lt.mpr habove
      rw [Nat.min_eq_right habove]
      cases hsign : x.getLsbD (8 * k.toNat + 7) with
      | true =>
        simp only [if_true, BitVec.getLsbD_or, BitVec.getLsbD_not, getLsbD_lowMask hbit, hnot,
          hi, decide_true, decide_false, Bool.not_false, Bool.and_true, Bool.or_true]
      | false =>
        simp only [Bool.false_eq_true, if_false, BitVec.getLsbD_and, getLsbD_lowMask hbit, hnot,
          decide_false, Bool.and_false]
  · rw [if_neg hk, Nat.min_eq_left (by omega)]

/-- Two words extend to the same if they agree up to the sign bit. -/
lemma signExtend_congr {k x y : Word}
    (h : y.setWidth (8 * (k.toNat + 1)) = x.setWidth (8 * (k.toNat + 1))) :
    Word.signExtend k y = Word.signExtend k x := by
  apply BitVec.eq_of_getLsbD_eq
  intro i hi
  have hplace : min i (8 * k.toNat + 7) < 8 * (k.toNat + 1) := by omega
  have hbit := congrArg (fun z => BitVec.getLsbD z (min i (8 * k.toNat + 7))) h
  simp only [BitVec.getLsbD_setWidth, hplace, decide_true, Bool.true_and] at hbit
  rw [getLsbD_signExtend k y hi, getLsbD_signExtend k x hi, hbit]

lemma signExtend_signExtend {j k : Word} (h : j.toNat ≤ k.toNat) (x : Word) :
    Word.signExtend k (Word.signExtend j x) = Word.signExtend j x := by
  apply BitVec.eq_of_getLsbD_eq
  intro i hi
  have hplace : min i (8 * k.toNat + 7) < 256 := by omega
  have hlower : min (min i (8 * k.toNat + 7)) (8 * j.toNat + 7) = min i (8 * j.toNat + 7) := by
    omega
  rw [getLsbD_signExtend k _ hi, getLsbD_signExtend j x hplace, getLsbD_signExtend j x hi, hlower]

lemma signExtend_of_ge {k : Word} (hk : 31 ≤ k.toNat) (x : Word) : Word.signExtend k x = x := by
  apply BitVec.eq_of_getLsbD_eq
  intro i hi
  rw [getLsbD_signExtend k x hi, Nat.min_eq_left (by omega)]

/-- Below the width of a word, the low bits are read as a signed number and encoded again. -/
lemma signExtend_eq_ofInt (k x : Word) :
    Word.signExtend k x = BitVec.ofInt 256 (x.setWidth (8 * (k.toNat + 1))).toInt := by
  show Word.signExtend k x = (x.setWidth (8 * (k.toNat + 1))).signExtend 256
  apply BitVec.eq_of_getLsbD_eq
  intro i hi
  rw [getLsbD_signExtend k x hi, BitVec.getLsbD_signExtend]
  by_cases hlow : i < 8 * (k.toNat + 1)
  · have hplace : min i (8 * k.toNat + 7) = i := by omega
    simp only [hplace, hi, hlow, decide_true, Bool.true_and, if_true, BitVec.getLsbD_setWidth]
  · have hplace : min i (8 * k.toNat + 7) = 8 * (k.toNat + 1) - 1 := by omega
    have hsign : 8 * (k.toNat + 1) - 1 < 8 * (k.toNat + 1) := by omega
    simp only [hplace, hi, hlow, decide_true, Bool.true_and, if_false, BitVec.msb_eq_getLsbD_last,
      BitVec.getLsbD_setWidth, hsign]

/-- From byte 31 on, extending the sign changes nothing. Of a lower byte and the bytes below it, the
result encodes the number that they stand for as a signed number of their width. It therefore
depends on these bytes alone, extending twice is extending once, and so is extending the sign of a
byte that is not lower afterwards. -/
theorem signExtend_copies_sign (k x : Word) :
    (Word.signExtend k x =
      if 31 ≤ k.toNat then x else BitVec.ofInt 256 (x.setWidth (8 * (k.toNat + 1))).toInt) ∧
    (∀ y : Word, y.setWidth (8 * (k.toNat + 1)) = x.setWidth (8 * (k.toNat + 1)) →
      Word.signExtend k y = Word.signExtend k x) ∧
    Word.signExtend k (Word.signExtend k x) = Word.signExtend k x ∧
    ∀ j : Word, j ≤ k → Word.signExtend k (Word.signExtend j x) = Word.signExtend j x := by
  refine ⟨?_, fun y => signExtend_congr, signExtend_signExtend (Nat.le_refl _) x,
    fun j hj => signExtend_signExtend hj x⟩
  split
  · next hk => exact signExtend_of_ge hk x
  · exact signExtend_eq_ofInt k x

/-- The second byte of a word is cut off when the sign of the first is extended, and stays so. -/
theorem signExtend_copies_sign_secondByte :
    Word.signExtend 0 0x1ff = Word.signExtend 0 0xff ∧
      Word.signExtend 1 (Word.signExtend 0 0x1ff) = BitVec.ofInt 256 (-1) := by
  obtain ⟨hlow, hcongr, -, -⟩ := signExtend_copies_sign 0 0xff
  obtain ⟨-, -, -, hwider⟩ := signExtend_copies_sign 1 0x1ff
  have hsame := hcongr 0x1ff (by decide)
  refine ⟨hsame, ?_⟩
  rw [hwider 0 (by decide), hsame, hlow]
  decide

end ContractMachine.Proofs
