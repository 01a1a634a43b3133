import ContractMachine.Gas.Schedule
import ContractMachine.Proofs.WordBytes
import ContractMachine.Word.Arithmetic
import Mathlib.Data.Nat.ModEq
import Mathlib.Logic.Function.Iterate

/-!
# Exponentiation

Squaring the base while the exponent is halved gives the power modulo the number of words, in no
more rounds than the exponent has bits. The price goes by the bytes of the exponent, which are
counted from its binary logarithm: they are those of its spelling without a leading zero byte.
-/

namespace ContractMachine.Proofs

/-- What a round of the loop works on. -/
structure Squaring where
  product : Word
  base : Word
  exponent : Nat

namespace Squaring

def next (s : Squaring) : Squaring where
  product := if s.exponent % 2 = 1 then s.product * s.base else s.product
  base := s.base * s.base
  exponent := s.exponent / 2

/-- The value that the rounds lead to. -/
def value (s : Squaring) : Nat := s.product.toNat * s.base.toNat ^ s.exponent % 2 ^ 256

lemma value_next (s : Squaring) : s.next.value = s.value := by
  have hsquares : s.next.base.toNat ^ s.next.exponent ≡
      s.base.toNat ^ (2 * (s.exponent / 2)) [MOD 2 ^ 256] := by
    rw [Nat.pow_mul, Nat.pow_two]
    exact (Nat.mod_modEq _ _).pow _
  obtain heven | hodd := Nat.mod_two_eq_zero_or_one s.exponent
  · have hproduct : s.next.product = s.product := if_neg (by omega)
    have hhalves : 2 * (s.exponent / 2) = s.exponent := by omega
    rw [hhalves] at hsquares
    unfold value
    rw [hproduct]
    exact hsquares.mul_left _
  · have hproduct : s.next.product.toNat = s.product.toNat * s.base.toNat % 2 ^ 256 := by
      rw [next, if_pos hodd, BitVec.toNat_mul]
    have hhalves : s.exponent = 2 * (s.exponent / 2) + 1 := by omega
    have hpower : s.product.toNat * s.base.toNat ^ s.exponent =
        s.product.toNat * s.base.toNat * s.base.toNat ^ (2 * (s.exponent / 2)) := by
      conv_lhs => rw [hhalves, Nat.pow_succ']
      rw [Nat.mul_assoc]
    unfold value
    rw [hproduct, hpower]
    exact (Nat.mod_modEq _ _).mul hsquares

lemma exponent_iterate (s : Squaring) (n : Nat) : (next^[n] s).exponent = s.exponent / 2 ^ n := by
  induction n with
  | zero => exact (Nat.div_one _).symm
  | succ n ih =>
    rw [Function.iterate_succ_apply', next, ih, Nat.div_div_eq_div_mul, Nat.pow_succ]

lemma value_iterate (s : Squaring) (n : Nat) : (next^[n] s).value = s.value := by
  induction n with
  | zero => rfl
  | succ n ih => rw [Function.iterate_succ_apply', value_next, ih]

lemma value_of_spent {s : Squaring} (h : s.exponent = 0) : s.value = s.product.toNat := by
  rw [value, h, Nat.pow_zero, Nat.mul_one]
  exact Nat.mod_eq_of_lt s.product.isLt

/-- The loop is over after as many rounds as it takes to spend the exponent. -/
lemma expLoop_iterate (n : Nat) (s : Squaring) (h : s.exponent < 2 ^ n) :
    Word.expLoop s.product s.base s.exponent = (next^[n] s).product := by
  induction n generalizing s with
  | zero =>
    have hspent : s.exponent = 0 := by omega
    rw [Word.expLoop, if_pos hspent]
    rfl
  | succ n ih =>
    have hnext : s.next.exponent < 2 ^ n := by
      show s.exponent / 2 < 2 ^ n
      omega
    rw [Function.iterate_succ_apply, ← ih s.next hnext, Word.expLoop]
    split
    -- The loop stops as soon as the exponent is spent, and a further round keeps the product.
    · next hspent =>
      rw [Word.expLoop, if_pos (by simp [next, hspent])]
      simp [next, hspent]
    · rfl

end Squaring

/-- The bytes spell the number, and the first of them is not zero. -/
structure Trimmed (bytes : Bytes) (n : Nat) : Prop where
  value : bytes.toNat = n
  leading : bytes[0]? ≠ some 0

lemma littleEndian_lt (bytes : List UInt8) : littleEndian bytes < 256 ^ bytes.length := by
  induction bytes with
  | nil => exact Nat.one_pos
  | cons byte rest ih =>
    have hbyte := byte.toNat_lt
    rw [littleEndian, List.length_cons, Nat.pow_succ]
    omega

/-- The last byte of the list has the greatest weight. -/
lemma le_littleEndian {bytes : List UInt8} {last : UInt8} (h : bytes.getLast? = some last)
    (hlast : last ≠ 0) : 256 ^ (bytes.length - 1) ≤ littleEndian bytes := by
  induction bytes with
  | nil => cases h
  | cons byte rest ih =>
    cases rest with
    | nil =>
      cases h
      have hpos : byte.toNat ≠ 0 := fun hzero => hlast (UInt8.toNat_inj.mp hzero)
      simp only [littleEndian, List.length_singleton, Nat.sub_self, Nat.pow_zero]
      omega
    | cons second rest =>
      have hrest := ih h
      rw [littleEndian, List.length_cons, Nat.add_sub_cancel, List.length_cons, Nat.pow_succ]
      simp only [List.length_cons, Nat.add_sub_cancel] at hrest
      omega

lemma Trimmed.size_eq {bytes : Bytes} {n : Nat} (h : Trimmed bytes n) :
    bytes.size = if n = 0 then 0 else n.log2 / 8 + 1 := by
  have hvalue : littleEndian bytes.toList.reverse = n := by
    rw [← toNat_eq_littleEndian, h.value]
  have hbound := littleEndian_lt bytes.toList.reverse
  rw [hvalue, List.length_reverse, Array.length_toList] at hbound
  have hlog (k : Nat) : (256 : Nat) ^ k = 2 ^ (8 * k) := (Nat.pow_mul 2 8 k).symm
  cases hfirst : bytes[0]? with
  | none =>
    have hempty : bytes.size = 0 := by simpa using hfirst
    rw [hempty, Nat.pow_zero] at hbound
    rw [hempty, if_pos (by omega)]
  | some first =>
    have hleast : 256 ^ (bytes.size - 1) ≤ n := by
      have hlast : bytes.toList.reverse.getLast? = some first := by
        rw [List.getLast?_reverse, List.head?_eq_getElem?, Array.getElem?_toList, hfirst]
      have hle := le_littleEndian hlast fun hzero => h.leading (hzero ▸ hfirst)
      rwa [hvalue, List.length_reverse, Array.length_toList] at hle
    have hsize : 0 < bytes.size := (Array.getElem?_eq_some_iff.mp hfirst).1
    have hn : n ≠ 0 := fun hzero => by
      have hpos : 0 < 256 ^ (bytes.size - 1) := Nat.pow_pos (by decide)
      omega
    rw [hlog, ← Nat.le_log2 hn] at hleast
    rw [hlog, ← Nat.log2_lt hn] at hbound
    rw [if_neg hn]
    omega

lemma ofNat_succ (width n : Nat) :
    Bytes.ofNat (width + 1) n = (Bytes.ofNat width (n / 256)).push (UInt8.ofNat n) := by
  unfold Bytes.ofNat
  rw [Array.ofFn_succ]
  congr 1
  · congr 1
    funext i
    have hi := i.isLt
    have hshift : 8 * (width + 1 - 1 - i.castSucc.val) = 8 + 8 * (width - 1 - i.val) := by
      simp only [Fin.val_castSucc]
      omega
    rw [hshift, Nat.shiftRight_add, Nat.shiftRight_eq_div_pow n 8]
  · simp

lemma toNat_ofNat {width n : Nat} (h : n < 256 ^ width) : (Bytes.ofNat width n).toNat = n := by
  induction width generalizing n with
  | zero =>
    have hzero : n = 0 := by omega
    rw [hzero]
    rfl
  | succ width ih =>
    have hquotient : n / 256 < 256 ^ width := by
      rw [Nat.pow_succ] at h
      omega
    have hvalue := ih hquotient
    unfold Bytes.toNat at hvalue ⊢
    rw [ofNat_succ, Array.foldl_push, hvalue, UInt8.toNat_ofNat']
    omega

/-- Above all bytes but the first there is one byte left, and it is not zero. -/
lemma leadingByte_bounds {n : Nat} (hn : n ≠ 0) :
    0 < n >>> (8 * (n.log2 / 8)) ∧ n >>> (8 * (n.log2 / 8)) < 256 := by
  rw [Nat.shiftRight_eq_div_pow]
  constructor
  · apply Nat.div_pos _ (Nat.two_pow_pos _)
    rw [← Nat.le_log2 hn]
    omega
  · apply Nat.div_lt_of_lt_mul
    rw [← Nat.pow_add 2 _ 8, ← Nat.log2_lt hn]
    omega

/-- Every number has such bytes. -/
lemma trimmed_ofNatTrimmed (n : Nat) : Trimmed (Bytes.ofNatTrimmed n) n := by
  unfold Bytes.ofNatTrimmed
  by_cases hn : n = 0
  · subst hn
    exact ⟨rfl, nofun⟩
  · rw [if_neg hn]
    have hwidth : n < 2 ^ (8 * (n.log2 / 8 + 1)) := by
      rw [← Nat.log2_lt hn]
      omega
    rw [Nat.pow_mul] at hwidth
    refine ⟨toNat_ofNat hwidth, ?_⟩
    have hfirst : (Bytes.ofNat (n.log2 / 8 + 1) n)[0]? =
        some (UInt8.ofNat (n >>> (8 * (n.log2 / 8)))) := by
      simp [Bytes.ofNat]
    rw [hfirst]
    intro hzero
    have hbyte : (n >>> (8 * (n.log2 / 8))) % 256 = 0 := by
      rw [← UInt8.toNat_ofNat', Option.some.inj hzero]
      rfl
    obtain ⟨hpos, hlt⟩ := leadingByte_bounds hn
    omega

lemma byteLength_eq (w : Word) {bytes : Bytes} (h : Trimmed bytes w.toNat) :
    Gas.byteLength w = bytes.size := by
  have hzero : w = 0 ↔ w.toNat = 0 := BitVec.toNat_inj.symm
  rw [h.size_eq, Gas.byteLength]
  simp only [hzero]

/-- The power of two words is the power of their numbers modulo the number of words, and the power
to zero is one. The loop is over after at most as many rounds as a word has bits. The price is ten,
and the price of a byte for each byte that the exponent has without leading zeros, or it is refused
because it is no quantity. -/
theorem exp_is_modular_power (a b : Word) (rules : Rules) :
    (Word.exp a b).toNat = a.toNat ^ b.toNat % 2 ^ 256 ∧
    (∃ rounds ≤ 256, (Squaring.next^[rounds] ⟨1, a, b.toNat⟩).exponent = 0 ∧
      (Squaring.next^[rounds] ⟨1, a, b.toNat⟩).product = Word.exp a b) ∧
    (∃ bytes, Trimmed bytes b.toNat) ∧
    ∀ bytes, Trimmed bytes b.toNat →
      Gas.expCost rules b =
        if 10 + rules.expByteGas * bytes.size < 2 ^ 64 then .ok (10 + rules.expByteGas * bytes.size)
        else .error .gasUintOverflow := by
  let start : Squaring := ⟨1, a, b.toNat⟩
  have hloop : Word.exp a b = (Squaring.next^[256] start).product :=
    Squaring.expLoop_iterate 256 start b.isLt
  have hspent : (Squaring.next^[256] start).exponent = 0 := by
    rw [Squaring.exponent_iterate]
    exact Nat.div_eq_of_lt b.isLt
  refine ⟨?_, ⟨256, Nat.le_refl _, hspent, hloop.symm⟩, ⟨_, trimmed_ofNatTrimmed _⟩, ?_⟩
  · rw [hloop, ← Squaring.value_of_spent hspent, Squaring.value_iterate]
    show (1 : Word).toNat * a.toNat ^ b.toNat % 2 ^ 256 = a.toNat ^ b.toNat % 2 ^ 256
    rw [show (1 : Word).toNat = 1 from rfl, Nat.one_mul]
  · intro bytes hbytes
    rw [Gas.expCost_eq, byteLength_eq b hbytes, Nat.add_comm]
    rfl

/-- The exponent of two bytes costs the price of two under the homestead rules. -/
theorem exp_is_modular_power_twoBytes :
    Trimmed #[1, 0] (0x100 : Word).toNat ∧ (Word.exp 3 0x100).toNat = 3 ^ 256 % 2 ^ 256 ∧
      Gas.expCost .homestead 0x100 = .ok 30 := by
  have hbytes : Trimmed #[1, 0] (0x100 : Word).toNat := ⟨rfl, by decide⟩
  obtain ⟨hpower, -, -, hcost⟩ := exp_is_modular_power 3 0x100 .homestead
  exact ⟨hbytes, hpower, hcost _ hbytes⟩

end ContractMachine.Proofs
