import ContractMachine.Word.Arithmetic
import Mathlib.Algebra.Group.Nat.Defs

/-!
# Signed division

A signed word stands for a number, and words are converted to signed words and back without a
change to it. Division truncates the quotient of the numbers toward zero. It keeps the bits of the
magnitude below the sign bit, so that the one quotient whose magnitude has no such bit is lost where
it is not told apart.
-/

namespace ContractMachine.Proofs

/-- The number that a sign and a magnitude stand for. -/
def signedValue (x : SignedWord) : Int :=
  match x.sign with
  | .zero => 0
  | .plus => x.magnitude.toNat
  | .minus => -x.magnitude.toNat

lemma toNat_lowBits (w : Word) : (w &&& SignedWord.lowBits).toNat = w.toNat % 2 ^ 255 := by
  rw [SignedWord.lowBits, BitVec.toNat_and, BitVec.toNat_intMax]
  exact Nat.and_two_pow_sub_one_eq_mod w.toNat 255

/-- The sign bit is clear in the words below it. -/
lemma lowBits_eq_iff (w : Word) : w &&& SignedWord.lowBits = w ↔ w.toNat < 2 ^ 255 := by
  rw [← BitVec.toNat_inj, toNat_lowBits]
  constructor
  · intro h
    rw [← h]
    exact Nat.mod_lt _ (by decide)
  · exact Nat.mod_eq_of_lt

lemma toWord_eq_ofInt (x : SignedWord) : x.toWord = BitVec.ofInt 256 (signedValue x) := by
  unfold SignedWord.toWord signedValue
  cases x.sign with
  | zero => rfl
  | plus => simp only [BitVec.ofInt_natCast, BitVec.ofNat_toNat, BitVec.setWidth_eq]
  | minus =>
    simp only [BitVec.ofInt_neg, BitVec.ofInt_natCast, BitVec.ofNat_toNat, BitVec.setWidth_eq]
    exact (BitVec.neg_eq_not_add x.magnitude).symm

/-- The ways in which a word is read: as zero, as a number below the sign bit, or as one at most as
large to be taken away. -/
inductive Reads (w : Word) : SignedWord → Prop
  | zero (h : w = 0) : Reads w .zero
  | plus (hpos : 0 < w.toNat) (hlow : w.toNat < 2 ^ 255) : Reads w ⟨.plus, w⟩
  | minus {magnitude : Word} (hpos : 0 < magnitude.toNat) (hle : magnitude.toNat ≤ 2 ^ 255)
      (hsum : w.toNat + magnitude.toNat = 2 ^ 256) : Reads w ⟨.minus, magnitude⟩

lemma reads_ofWord (w : Word) : Reads w (.ofWord w) := by
  unfold SignedWord.ofWord
  by_cases hzero : w = 0
  · rw [if_pos hzero]
    exact .zero hzero
  · have hne : w.toNat ≠ 0 := fun h => hzero (BitVec.eq_of_toNat_eq h)
    have hlt := w.isLt
    rw [if_neg hzero]
    by_cases hlow : w &&& SignedWord.lowBits = w
    · rw [if_pos hlow]
      exact .plus (Nat.pos_of_ne_zero hne) ((lowBits_eq_iff w).mp hlow)
    · have hhigh : ¬w.toNat < 2 ^ 255 := mt (lowBits_eq_iff w).mpr hlow
      have hmagnitude : (~~~w + 1).toNat = 2 ^ 256 - w.toNat := by
        have hneg : -w = ~~~w + 1 := BitVec.neg_eq_not_add w
        rw [← hneg, BitVec.toNat_neg]
        exact Nat.mod_eq_of_lt (by omega)
      rw [if_neg hlow]
      exact .minus (by omega) (by omega) (by omega)

lemma Reads.value {w : Word} {x : SignedWord} (h : Reads w x) : signedValue x = w.toInt := by
  rw [BitVec.toInt_eq_toNat_cond]
  cases h with
  | zero h =>
    subst h
    rfl
  | plus hpos hlow =>
    rw [if_pos (by omega)]
    rfl
  | @minus magnitude hpos hle hsum =>
    rw [if_neg (by omega)]
    simp only [signedValue]
    omega

lemma value_ofWord (w : Word) : signedValue (.ofWord w) = w.toInt := (reads_ofWord w).value

/-- What division makes of a sign and of the bits of a magnitude that it keeps. -/
lemma value_signed (sign : Sign) (magnitude : Word) (hsign : sign ≠ .zero) :
    signedValue (if magnitude = 0 then .zero else ⟨sign, magnitude⟩) =
      if sign = .minus then -(magnitude.toNat : Int) else magnitude.toNat := by
  by_cases hzero : magnitude = 0
  · subst hzero
    cases sign <;> rfl
  · rw [if_neg hzero]
    cases sign with
    | zero => exact absurd rfl hsign
    | plus | minus => rfl

lemma quotientSign_ne_zero (s t : Sign) : SignedWord.quotientSign s t ≠ .zero := by
  cases s <;> cases t <;> decide

/-- A quotient whose magnitude has no bit above those that are kept is truncated toward zero. -/
lemma value_div {a b : Word} {x y : SignedWord} (hx : Reads a x) (hy : Reads b y)
    (hfits : x.magnitude.toNat / y.magnitude.toNat < 2 ^ 255) :
    signedValue (x.div y) = (signedValue x).tdiv (signedValue y) := by
  have hkept : (x.magnitude / y.magnitude &&& SignedWord.lowBits).toNat =
      x.magnitude.toNat / y.magnitude.toNat := by
    rw [toNat_lowBits, BitVec.toNat_udiv]
    exact Nat.mod_eq_of_lt hfits
  have hlargest : ¬(x = .least ∧ y = ⟨.minus, 1⟩) := by
    rintro ⟨rfl, rfl⟩
    revert hfits
    decide
  unfold SignedWord.div
  by_cases hzero : y = .zero
  · rw [if_pos hzero, hzero]
    exact (Int.tdiv_zero _).symm
  · rw [if_neg hzero, if_neg hlargest]
    simp only [value_signed _ _ (quotientSign_ne_zero _ _), hkept]
    cases hy with
    | zero => exact absurd rfl hzero
    | plus | minus =>
      cases hx <;>
        simp [signedValue, SignedWord.quotientSign, SignedWord.zero, Int.neg_tdiv, Int.tdiv_neg]

lemma eq_intMin {a : Word} (h : a.toNat = 2 ^ 255) : a = BitVec.intMin 256 :=
  BitVec.eq_of_toNat_eq h

lemma half_lt {m n : Nat} (hm : m ≤ 2 ^ 255) (hn : 2 ≤ n) : m / n < 2 ^ 255 := by
  have hhalf : m / n ≤ m / 2 := Nat.div_le_div_left hn (by decide)
  omega

/-- The magnitude of a quotient reaches the sign bit only where the least number is divided by one
or by minus one. -/
lemma quotient_fits {a b : Word} {x y : SignedWord} (hx : Reads a x) (hy : Reads b y)
    (h : ¬(a = BitVec.intMin 256 ∧ (b = 1 ∨ b = -1))) :
    x.magnitude.toNat / y.magnitude.toNat < 2 ^ 255 := by
  have hself := Nat.div_le_self x.magnitude.toNat y.magnitude.toNat
  cases hx with
  | zero => exact Nat.lt_of_le_of_lt hself (by decide)
  | plus hpos hlow => exact Nat.lt_of_le_of_lt hself hlow
  | @minus magnitude hpos hle hsum =>
    by_cases hlarge : magnitude.toNat = 2 ^ 255
    · have ha : a = BitVec.intMin 256 := eq_intMin (by omega)
      simp only [ha, true_and, not_or] at h
      cases hy with
      | zero =>
        show magnitude.toNat / 0 < 2 ^ 255
        rw [Nat.div_zero]
        decide
      | plus hpos' hlow =>
        have hone : b.toNat ≠ 1 := fun hb => h.1 (BitVec.eq_of_toNat_eq hb)
        have htwo : 2 ≤ b.toNat := by omega
        exact half_lt hle htwo
      | @minus divisor hpos' hle' hsum' =>
        have hone : divisor.toNat ≠ 1 := by
          intro hd
          rw [hd] at hsum'
          exact h.2 (BitVec.eq_of_toNat_eq (Nat.succ.inj hsum'))
        have htwo : 2 ≤ divisor.toNat := by omega
        exact half_lt hle htwo
    · have hless : magnitude.toNat < 2 ^ 255 := by omega
      exact Nat.lt_of_le_of_lt hself hless

lemma sdiv_eq (a b : Word) :
    Word.sdiv a b =
      if b = 0 ∨ (a = BitVec.intMin 256 ∧ b = 1) then 0
      else BitVec.ofInt 256 (a.toInt.tdiv b.toInt) := by
  by_cases hlargest : a = BitVec.intMin 256 ∧ (b = 1 ∨ b = -1)
  -- The two quotients of magnitude `2 ^ 255`.
  · obtain ⟨rfl, rfl | rfl⟩ := hlargest <;> decide +kernel
  · have hdiv : Word.sdiv a b = BitVec.ofInt 256 (a.toInt.tdiv b.toInt) := by
      have hfits := quotient_fits (reads_ofWord a) (reads_ofWord b) hlargest
      rw [Word.sdiv, toWord_eq_ofInt, value_div (reads_ofWord a) (reads_ofWord b) hfits,
        value_ofWord, value_ofWord]
    by_cases hzero : b = 0
    · have hnothing : (0 : Word).toInt = 0 := rfl
      rw [if_pos (.inl hzero), hdiv, hzero, hnothing, Int.tdiv_zero]
      rfl
    · have hone : ¬(a = BitVec.intMin 256 ∧ b = 1) := fun h => hlargest ⟨h.1, .inl h.2⟩
      rw [if_neg (not_or.mpr ⟨hzero, hone⟩)]
      exact hdiv

/-- Division of words is the division of the numbers that they stand for, truncated toward zero and
encoded again. Division by zero gives zero. The least number divided by minus one is encoded as the
least number, but divided by one it gives zero, where every other word divided by one is itself. -/
theorem sdiv_truncates (a b : Word) :
    (Word.sdiv a b =
      if b = 0 ∨ (a = BitVec.intMin 256 ∧ b = 1) then 0
      else BitVec.ofInt 256 (a.toInt.tdiv b.toInt)) ∧
    Word.sdiv (BitVec.intMin 256) (-1) = BitVec.intMin 256 ∧
    Word.sdiv a 1 = if a = BitVec.intMin 256 then 0 else a := by
  refine ⟨sdiv_eq a b, by decide +kernel, ?_⟩
  have hone : (1 : Word).toInt = 1 := rfl
  rw [sdiv_eq, hone, Int.tdiv_one, BitVec.ofInt_toInt]
  simp

/-- The least number divided by one is not the least number. -/
theorem sdiv_least_by_one :
    Word.sdiv (BitVec.intMin 256) 1 ≠
      BitVec.ofInt 256 ((BitVec.intMin 256).toInt.tdiv (1 : Word).toInt) := by
  decide +kernel

end ContractMachine.Proofs
