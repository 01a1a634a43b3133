import ContractMachine.Proofs.SignedDivision

/-!
# The order and the remainder of signed words

Signed words are ordered as the numbers that they stand for. The remainder of two magnitudes is
below the magnitude of the divisor, which is at most `2 ^ 255`, so that keeping the bits below the
sign bit never loses a part of it.
-/

namespace ContractMachine.Proofs

/-- `r` is left of `a` when its quotient by `b`, truncated toward zero, is taken away. -/
structure IsRemainder (a b r : Int) : Prop where
  quotient : a.tdiv b * b + r = a
  smaller : r.natAbs < b.natAbs
  sign : r = 0 ∨ r.sign = a.sign

lemma isRemainder_tmod {a b : Int} (hb : b ≠ 0) : IsRemainder a b (a.tmod b) where
  quotient := Int.tdiv_mul_add_tmod a b
  smaller := by
    rw [Int.natAbs_tmod]
    exact Nat.mod_lt _ (Int.natAbs_pos.mpr hb)
  sign := by
    by_cases hdvd : b ∣ a
    · exact .inl (Int.tmod_eq_zero_of_dvd hdvd)
    · right
      rw [Int.sign_tmod, if_neg hdvd]

lemma toWord_ofWord (w : Word) : (SignedWord.ofWord w).toWord = w := by
  rw [toWord_eq_ofInt, value_ofWord, BitVec.ofInt_toInt]

lemma compare_eq_of_iff {x y : Word} {i j : Int} (hlt : x.toNat < y.toNat ↔ i < j)
    (heq : x.toNat = y.toNat ↔ i = j) : compare x y = compare i j := by
  simp only [compare, compareOfLessAndEq, BitVec.lt_def, ← BitVec.toNat_inj, hlt, heq]

/-- Signs decide where they differ. Below zero the larger magnitude is the lesser number. -/
lemma order_eq {a b : Word} {x y : SignedWord} (hx : Reads a x) (hy : Reads b y) :
    x.order y = compare (signedValue x) (signedValue y) := by
  cases hx with
  | zero h =>
    cases hy with
    | zero h' => rfl
    | plus hpos' hlow' =>
      exact (Std.compare_eq_lt.mpr (Int.natCast_pos.mpr hpos')).symm
    | minus hpos' hle' hsum' =>
      exact (Std.compare_eq_gt.mpr (Int.neg_neg_of_pos (Int.natCast_pos.mpr hpos'))).symm
  | plus hpos hlow =>
    cases hy with
    | zero h' => exact (Std.compare_eq_gt.mpr (Int.natCast_pos.mpr hpos)).symm
    | plus hpos' hlow' => exact compare_eq_of_iff Int.ofNat_lt.symm Int.ofNat_inj.symm
    | @minus magnitude hpos' hle' hsum' =>
      have hless : -(magnitude.toNat : Int) < a.toNat := by omega
      exact (Std.compare_eq_gt.mpr hless).symm
  | @minus magnitude hpos hle hsum =>
    cases hy with
    | zero h' =>
      exact (Std.compare_eq_lt.mpr (Int.neg_neg_of_pos (Int.natCast_pos.mpr hpos))).symm
    | plus hpos' hlow' =>
      have hless : -(magnitude.toNat : Int) < b.toNat := by omega
      exact (Std.compare_eq_lt.mpr hless).symm
    | minus hpos' hle' hsum' =>
      exact compare_eq_of_iff (by simp only [signedValue]; omega)
        (by simp only [signedValue]; omega)

lemma order_ofWord (a b : Word) :
    (SignedWord.ofWord a).order (.ofWord b) = compare a.toInt b.toInt := by
  rw [order_eq (reads_ofWord a) (reads_ofWord b), value_ofWord, value_ofWord]

lemma slt_eq (a b : Word) : Word.slt a b = if a.toInt < b.toInt then 1 else 0 := by
  by_cases hless : a.toInt < b.toInt
  · rw [Word.slt, order_ofWord, if_pos hless, Std.compare_eq_lt.mpr hless]
    rfl
  · have hne : compare a.toInt b.toInt ≠ .lt := mt Std.compare_eq_lt.mp hless
    rw [Word.slt, order_ofWord, if_neg hless, beq_false_of_ne hne]
    rfl

lemma sgt_eq (a b : Word) : Word.sgt a b = if b.toInt < a.toInt then 1 else 0 := by
  by_cases hless : b.toInt < a.toInt
  · rw [Word.sgt, order_ofWord, if_pos hless, Std.compare_eq_gt.mpr hless]
    rfl
  · have hne : compare a.toInt b.toInt ≠ .gt := mt Std.compare_eq_gt.mp hless
    rw [Word.sgt, order_ofWord, if_neg hless, beq_false_of_ne hne]
    rfl

lemma magnitude_le {w : Word} {x : SignedWord} (h : Reads w x) : x.magnitude.toNat ≤ 2 ^ 255 := by
  cases h with
  | zero h => exact Nat.zero_le _
  | plus hpos hlow => exact Nat.le_of_lt hlow
  | minus hpos hle hsum => exact hle

lemma magnitude_ne_zero {w : Word} {x : SignedWord} (h : Reads w x) (hw : w ≠ 0) :
    x.magnitude ≠ 0 := by
  intro hzero
  cases h with
  | zero h => exact hw h
  | plus hpos hlow => exact hw hzero
  | minus hpos hle hsum =>
    subst hzero
    exact absurd hpos (by decide)

/-- No bit of a remainder reaches the sign bit. -/
lemma rem_eq {b : Word} {y : SignedWord} (x : SignedWord) (hy : Reads b y) (hb : b ≠ 0) :
    x.rem y = if x.magnitude % y.magnitude = 0 then .zero
      else ⟨x.sign, x.magnitude % y.magnitude⟩ := by
  have hne := magnitude_ne_zero hy hb
  have hpos : 0 < y.magnitude.toNat := Nat.pos_of_ne_zero fun h => hne (BitVec.eq_of_toNat_eq h)
  have hkept : x.magnitude % y.magnitude &&& SignedWord.lowBits = x.magnitude % y.magnitude := by
    rw [lowBits_eq_iff, BitVec.toNat_umod]
    exact Nat.lt_of_lt_of_le (Nat.mod_lt _ hpos) (magnitude_le hy)
  simp only [SignedWord.rem, if_neg hne, hkept]

/-- The sign of the divisor makes no difference to the remainder. -/
lemma tmod_value {b : Word} {y : SignedWord} (hy : Reads b y) (i : Int) :
    i.tmod (signedValue y) = i.tmod y.magnitude.toNat := by
  cases hy with
  | zero h | plus hpos hlow => rfl
  | minus hpos hle hsum => exact Int.tmod_neg _ _

lemma value_rem {a b : Word} {x y : SignedWord} (hx : Reads a x) (hy : Reads b y) (hb : b ≠ 0) :
    signedValue (x.rem y) = (signedValue x).tmod (signedValue y) := by
  rw [rem_eq x hy hb, tmod_value hy]
  cases hx with
  | zero h =>
    have hnothing : SignedWord.zero.magnitude % y.magnitude = 0 :=
      BitVec.eq_of_toNat_eq (Nat.zero_mod _)
    rw [if_pos hnothing]
    exact (Int.zero_tmod _).symm
  | plus hpos hlow =>
    rw [value_signed .plus _ nofun, if_neg nofun, BitVec.toNat_umod]
    rfl
  | @minus magnitude hpos hle hsum =>
    rw [value_signed .minus _ nofun, if_pos rfl, BitVec.toNat_umod]
    exact (Int.neg_tmod (magnitude.toNat : Int) y.magnitude.toNat).symm

lemma smod_eq {a b : Word} (hb : b ≠ 0) :
    Word.smod a b = BitVec.ofInt 256 (a.toInt.tmod b.toInt) := by
  rw [Word.smod, if_neg hb, toWord_eq_ofInt, value_rem (reads_ofWord a) (reads_ofWord b) hb,
    value_ofWord, value_ofWord]

lemma toInt_smod {a b : Word} (hb : b ≠ 0) :
    (Word.smod a b).toInt = a.toInt.tmod b.toInt := by
  have hdivisor : b.toInt ≠ 0 := fun h => hb (BitVec.eq_of_toInt_eq h)
  have hsmaller := (isRemainder_tmod (a := a.toInt) hdivisor).smaller
  have hle := BitVec.le_toInt b
  have hlt := BitVec.toInt_lt (x := b)
  rw [smod_eq hb]
  apply BitVec.toInt_ofInt_eq_self (by decide) <;> omega

/-- Words are read as signed words and written back without a change. Their order is that of the
numbers they stand for, and so are the two comparisons. The remainder by zero is zero. By any other
word it stands for what truncated division leaves: smaller than the divisor, and of the sign of the
dividend. -/
theorem signed_reading_keeps_order_and_remainder (a b : Word) :
    (SignedWord.ofWord a).toWord = a ∧
    (SignedWord.ofWord a).order (.ofWord b) = compare a.toInt b.toInt ∧
    (Word.slt a b = if a.toInt < b.toInt then 1 else 0) ∧
    (Word.sgt a b = if b.toInt < a.toInt then 1 else 0) ∧
    ((b = 0 ∧ Word.smod a b = 0) ∨
      (b ≠ 0 ∧ Word.smod a b = BitVec.ofInt 256 (a.toInt.tmod b.toInt) ∧
        IsRemainder a.toInt b.toInt (Word.smod a b).toInt)) := by
  refine ⟨toWord_ofWord a, order_ofWord a b, slt_eq a b, sgt_eq a b, ?_⟩
  by_cases hb : b = 0
  · exact .inl ⟨hb, if_pos hb⟩
  · have hdivisor : b.toInt ≠ 0 := fun h => hb (BitVec.eq_of_toInt_eq h)
    refine .inr ⟨hb, smod_eq hb, ?_⟩
    rw [toInt_smod hb]
    exact isRemainder_tmod hdivisor

end ContractMachine.Proofs
