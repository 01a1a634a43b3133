import ContractMachine.Footprint
import ContractMachine.Gas.Meter
import ContractMachine.Memory
import Mathlib.Algebra.Order.Floor.Div
import Mathlib.Order.Bounds.Defs

/-!
# Exact costs

The prices that depend on a length are those of the integers as long as they are quantities, and
are refused from there on. Lengths are rounded up to whole words in four places, each in its own
way. All of them round to the same number of words.
-/

namespace ContractMachine.Proofs

/-- The amount if it can be had, and a refusal if it cannot. -/
def amountIf (payable : Prop) [Decidable payable] (amount : Nat) : Except Fault Nat :=
  if payable then .ok amount else .error .gasUintOverflow

/-- Prices that depend on a length, and lengths in whole words, as they are over the integers. -/
structure ExactCosts (rules : Rules) : Prop where
  sha3 (length : Word) : Gas.sha3Cost length =
    amountIf (length.toNat < 2 ^ 64 ∧ 30 + 6 * (length.toNat ⌈/⌉ 32) < 2 ^ 64)
      (30 + 6 * (length.toNat ⌈/⌉ 32))
  copy (length : Word) : Gas.copyCost length =
    amountIf (length.toNat < 2 ^ 64 ∧ 3 + 3 * (length.toNat ⌈/⌉ 32) < 2 ^ 64)
      (3 + 3 * (length.toNat ⌈/⌉ 32))
  extCodeCopy (length : Word) : Gas.extCodeCopyCost rules length =
    amountIf (length.toNat < 2 ^ 64 ∧ rules.extCodeGas + 3 * (length.toNat ⌈/⌉ 32) < 2 ^ 64)
      (rules.extCodeGas + 3 * (length.toNat ⌈/⌉ 32))
  log (topics : Nat) (length : Word) : Gas.logCost topics length =
    amountIf (375 + 375 * topics + 8 * length.toNat < 2 ^ 64)
      (375 + 375 * topics + 8 * length.toNat)
  memory (count : Nat) : Gas.memoryCost count =
    amountIf (count < 2 ^ 32) (3 * count + count ^ 2 / 512)
  memory_mono {count more price : Nat} (hle : count ≤ more)
    (hmore : Gas.memoryCost more = .ok price) :
    ∃ less ≤ price, Gas.memoryCost count = .ok less
  align (stop : Nat) : ∃ aligned, IsLeast {n | 32 ∣ n ∧ stop ≤ n} aligned ∧
    Footprint.align (some stop) =
      if aligned < 2 ^ 64 then .ok (some aligned) else .error .gasUintOverflow
  bill (paid memoryEnd : Nat) : Meter.memoryBill paid (some memoryEnd) =
    (Gas.memoryCost (memoryEnd ⌈/⌉ 32)).map (max paid)
  words (length : Word) : Gas.wordsOf length =
    amountIf (length.toNat < 2 ^ 64) (length.toNat ⌈/⌉ 32)
  agree {length : Word} {count stop : Nat} {m m' : Memory}
    (hcount : Gas.wordsOf length = .ok count)
    (hstop : Footprint.align (some length.toNat) = .ok (some stop))
    (hshort : m.size < length.toNat) (hgrown : Memory.resize length.toNat m = (.ok (), m')) :
    length.toNat ⌈/⌉ 32 = count ∧ stop = 32 * count ∧ m'.size = 32 * count

lemma words_eq_ceilDiv (length : Nat) : Gas.words length = length ⌈/⌉ 32 :=
  (Nat.ceilDiv_eq_add_pred_div length 32).symm

lemma wordAlign_eq_ceilDiv (length : Nat) : Quantity.wordAlign length = 32 * (length ⌈/⌉ 32) := by
  rw [← words_eq_ceilDiv, Nat.mul_comm]
  rfl

lemma wordAlign_isLeast (stop : Nat) :
    IsLeast {n | 32 ∣ n ∧ stop ≤ n} (Quantity.wordAlign stop) := by
  refine ⟨⟨Quantity.wordAlign_dvd stop, Quantity.le_wordAlign stop⟩, ?_⟩
  rintro n ⟨⟨count, rfl⟩, hstop⟩
  unfold Quantity.wordAlign
  omega

lemma wordsOf_exact (length : Word) :
    Gas.wordsOf length = amountIf (length.toNat < 2 ^ 64) (length.toNat ⌈/⌉ 32) := by
  rw [Gas.wordsOf_eq, words_eq_ceilDiv]
  rfl

lemma align_exact (stop : Nat) :
    Footprint.align (some stop) =
      if Quantity.wordAlign stop < 2 ^ 64 then .ok (some (Quantity.wordAlign stop))
      else .error .gasUintOverflow := by
  have hstop : stop < Quantity.limit ∧ Quantity.wordAlign stop < Quantity.limit ↔
      Quantity.wordAlign stop < 2 ^ 64 :=
    ⟨And.right, fun hfits => ⟨Nat.lt_of_le_of_lt (Quantity.le_wordAlign stop) hfits, hfits⟩⟩
  rw [Footprint.align_some]
  exact if_congr hstop rfl rfl

/-- Memory that grows has whole words then, as few as cover what was asked for. -/
lemma resize_size {stop : Nat} {m m' : Memory} (hshort : m.size < stop)
    (hgrown : Memory.resize stop m = (.ok (), m')) : m'.size = Quantity.wordAlign stop := by
  unfold Memory.size at hshort ⊢
  rw [Memory.resize_eq, if_neg (Nat.not_le_of_lt hshort)] at hgrown
  split at hgrown
  · cases hgrown
  · split at hgrown
    · cases hgrown
    · cases hgrown
      have hle := Quantity.le_wordAlign stop
      rw [Array.size_append, Array.size_replicate]
      omega

lemma amountIf_ok {payable : Prop} [Decidable payable] {amount result : Nat}
    (h : amountIf payable amount = .ok result) : payable ∧ amount = result := by
  unfold amountIf at h
  split at h
  · cases h
    exact ⟨‹_›, rfl⟩
  · cases h

/-- A price that fails with the length, or by itself. -/
lemma amountIf_and (accepted : Prop) [Decidable accepted] (amount : Nat) :
    (if accepted then Gas.bounded amount else .error .gasUintOverflow) =
      amountIf (accepted ∧ amount < 2 ^ 64) amount := by
  unfold amountIf Gas.bounded
  by_cases haccepted : accepted
  · simp only [haccepted, if_true, true_and]
    rfl
  · simp only [haccepted, if_false, false_and]

lemma perWord_exact (base wordPrice : Nat) (length : Word) :
    Gas.perWord base wordPrice length =
      amountIf
        (length.toNat < 2 ^ 64 ∧ base + wordPrice * (length.toNat ⌈/⌉ 32) < 2 ^ 64)
        (base + wordPrice * (length.toNat ⌈/⌉ 32)) := by
  have hcost : Gas.words length.toNat * wordPrice + base =
      base + wordPrice * (length.toNat ⌈/⌉ 32) := by
    rw [words_eq_ceilDiv, Nat.mul_comm, Nat.add_comm]
  rw [Gas.perWord_eq, hcost]
  exact amountIf_and _ _

/-- A length that is no quantity costs no quantity. -/
lemma logCost_exact (topics : Nat) (length : Word) :
    Gas.logCost topics length =
      amountIf (375 + 375 * topics + 8 * length.toNat < 2 ^ 64)
        (375 + 375 * topics + 8 * length.toNat) := by
  have hcost : length.toNat * Gas.logByte + Gas.log + Gas.logTopic * topics =
      375 + 375 * topics + 8 * length.toNat := by
    unfold Gas.logByte Gas.log Gas.logTopic
    omega
  have hpayable : length.toNat < 2 ^ 64 ∧ 375 + 375 * topics + 8 * length.toNat < 2 ^ 64 ↔
      375 + 375 * topics + 8 * length.toNat < 2 ^ 64 :=
    ⟨And.right, fun hfits => ⟨by omega, hfits⟩⟩
  rw [Gas.logCost_eq, hcost]
  exact (amountIf_and _ _).trans (if_congr hpayable rfl rfl)

/-- Where the square of the count is a quantity, so is the price. -/
lemma memoryCost_exact (count : Nat) :
    Gas.memoryCost count = amountIf (count < 2 ^ 32) (3 * count + count ^ 2 / 512) := by
  have hcost : count * Gas.memoryWord + count * count / Gas.memoryDivisor =
      3 * count + count ^ 2 / 512 := by
    rw [sq, Nat.mul_comm count Gas.memoryWord]
    rfl
  have hpayable : count * count < Quantity.limit ∧ 3 * count + count ^ 2 / 512 < 2 ^ 64 ↔
      count < 2 ^ 32 := by
    rw [Quantity.mul_self_lt_limit_iff]
    refine ⟨And.left, fun hcount => ⟨hcount, ?_⟩⟩
    have hsquare : count ^ 2 < 2 ^ 64 := by
      rw [sq]
      exact (Quantity.mul_self_lt_limit_iff count).mpr hcount
    omega
  rw [Gas.memoryCost_eq, hcost]
  exact (amountIf_and _ _).trans (if_congr hpayable rfl rfl)

lemma memoryCost_mono {count more price : Nat} (hle : count ≤ more)
    (hmore : Gas.memoryCost more = .ok price) :
    ∃ less ≤ price, Gas.memoryCost count = .ok less := by
  rw [memoryCost_exact] at hmore
  obtain ⟨hpayable, rfl⟩ := amountIf_ok hmore
  refine ⟨3 * count + count ^ 2 / 512, ?_, ?_⟩
  · have hsquare : count ^ 2 / 512 ≤ more ^ 2 / 512 :=
      Nat.div_le_div_right (Nat.pow_le_pow_left hle 2)
    omega
  · rw [memoryCost_exact]
    exact if_pos (Nat.lt_of_le_of_lt hle hpayable)

lemma memoryBill_exact (paid memoryEnd : Nat) :
    Meter.memoryBill paid (some memoryEnd) =
      (Gas.memoryCost (memoryEnd ⌈/⌉ 32)).map (max paid) := by
  rw [← words_eq_ceilDiv, Meter.memoryBill]
  cases Gas.memoryCost (Gas.words memoryEnd) <;> rfl

/-- Every price that depends on a length is exact or refused, and all roundings agree. -/
theorem costs_are_exact (rules : Rules) : ExactCosts rules where
  sha3 := perWord_exact 30 6
  copy := perWord_exact 3 3
  extCodeCopy := perWord_exact rules.extCodeGas 3
  log := logCost_exact
  memory := memoryCost_exact
  memory_mono := memoryCost_mono
  align stop := ⟨Quantity.wordAlign stop, wordAlign_isLeast stop, align_exact stop⟩
  bill := memoryBill_exact
  words := wordsOf_exact
  agree hcount hstop hshort hgrown := by
    rw [wordsOf_exact] at hcount
    obtain ⟨-, hcount⟩ := amountIf_ok hcount
    rw [resize_size hshort hgrown, ← hcount, wordAlign_eq_ceilDiv]
    refine ⟨rfl, ?_, rfl⟩
    rw [align_exact, wordAlign_eq_ceilDiv] at hstop
    split at hstop
    · cases hstop
      rfl
    · cases hstop

/-- The last length that can be paid for, the first one that cannot, and one between two words. -/
theorem costs_are_exact_frontier :
    Gas.sha3Cost 0xffffffffffffffff = .ok (30 + 6 * 2 ^ 59) ∧
    Gas.sha3Cost 0x10000000000000000 = .error .gasUintOverflow ∧
    (Memory.resize 33 (Memory.empty 64)).2.size = 32 * 2 := by
  obtain ⟨hsha3, -, -, -, -, -, -, -, -, hagree⟩ := costs_are_exact .frontier
  rw [hsha3, hsha3]
  refine ⟨by decide +kernel, by decide +kernel, ?_⟩
  exact (@hagree 33 2 64 (Memory.empty 64) _ (by decide +kernel) (by decide +kernel)
    (by decide +kernel) (by decide +kernel)).2.2

end ContractMachine.Proofs
