/-!
# Sixty-four bit quantities

Gas amounts, lengths, offsets and positions are natural numbers below `Quantity.limit`. They are
kept as plain numbers; the few operations that reach the limit say here what happens there.
-/

namespace ContractMachine.Quantity

/-- The first number that is no quantity any more. -/
def limit : Nat := 0x10000000000000000

/-- The largest quantity. -/
def max : Nat := 0xffffffffffffffff

/-- Addition that starts again from zero past the largest quantity, as sums without a check do. -/
def wrappingAdd (a b : Nat) : Nat := (a + b) % limit

/-- Addition that stays at the largest quantity. -/
def saturatingAdd (a b : Nat) : Nat := min (a + b) max

/-- The largest signed quantity. -/
def signedMax : Int := 0x7fffffffffffffff

/-- The least signed quantity. -/
def signedMin : Int := -0x8000000000000000

/-- Signed addition that stays between the least and the largest signed quantity. -/
def signedSaturatingAdd (a b : Int) : Int :=
  if a + b < signedMin then signedMin else if signedMax < a + b then signedMax else a + b

/-- The sum, if it is a quantity. -/
def checkedAdd (a b : Nat) : Option Nat := if a + b < limit then some (a + b) else none

/-- The product, if it is a quantity. -/
def checkedMul (a b : Nat) : Option Nat := if a * b < limit then some (a * b) else none

/-- The quotient, if it is not one by zero. -/
def checkedDiv (a b : Nat) : Option Nat := if b = 0 then none else some (a / b)

/-- The difference, if it is not below zero. -/
def checkedSub (a b : Nat) : Option Nat := if b ≤ a then some (a - b) else none

/-- Fills up what the low five bits leave of a multiple of 32, if that gives a quantity. -/
def alignUp? (n : Nat) : Option Nat :=
  let rest := n &&& 31
  checkedAdd n (if rest = 0 then 0 else 32 - rest)

/-- The least multiple of 32 not below `n`. -/
def wordAlign (n : Nat) : Nat := (n + 31) / 32 * 32

theorem wrappingAdd_eq {a b : Nat} (h : a + b < limit) : wrappingAdd a b = a + b :=
  Nat.mod_eq_of_lt h

theorem checkedDiv_eq {a b : Nat} (h : b ≠ 0) : checkedDiv a b = some (a / b) := if_neg h

theorem checkedAdd_eq_none {a b : Nat} (h : limit ≤ a + b) : checkedAdd a b = none :=
  if_neg (Nat.not_lt_of_le h)

theorem checkedSub_eq {a b : Nat} (h : b ≤ a) : checkedSub a b = some (a - b) := if_pos h

/-- The numbers whose squares are quantities. -/
theorem mul_self_lt_limit_iff (n : Nat) : n * n < limit ↔ n < 0x100000000 := by
  constructor
  · intro hsquare
    apply Nat.lt_of_not_le
    intro hfar
    exact absurd (Nat.lt_of_le_of_lt (Nat.mul_le_mul hfar hfar) hsquare) (by decide)
  · intro hn
    exact Nat.lt_of_lt_of_le (Nat.mul_lt_mul'' hn hn) (by decide)

/-- A test on the way can be left out if what follows fails where it does. -/
theorem checkedAdd_bind {a b : Nat} {f : Nat → Option Nat}
    (h : limit ≤ a + b → f (a + b) = none) : (checkedAdd a b >>= f) = f (a + b) := by
  unfold checkedAdd
  by_cases hfits : a + b < limit
  · rw [if_pos hfits]
    rfl
  · rw [if_neg hfits, h (Nat.le_of_not_lt hfits)]
    rfl

theorem checkedMul_bind {a b : Nat} {f : Nat → Option Nat}
    (h : limit ≤ a * b → f (a * b) = none) : (checkedMul a b >>= f) = f (a * b) := by
  unfold checkedMul
  by_cases hfits : a * b < limit
  · rw [if_pos hfits]
    rfl
  · rw [if_neg hfits, h (Nat.le_of_not_lt hfits)]
    rfl

theorem le_wordAlign (n : Nat) : n ≤ wordAlign n := by
  unfold wordAlign; omega

theorem wordAlign_dvd (n : Nat) : 32 ∣ wordAlign n := Nat.dvd_mul_left 32 _

theorem alignUp?_eq (n : Nat) :
    alignUp? n = if wordAlign n < limit then some (wordAlign n) else none := by
  have hrest : n &&& 31 = n % 32 := Nat.and_two_pow_sub_one_eq_mod n 5
  have hsum : (n + if n % 32 = 0 then 0 else 32 - n % 32) = wordAlign n := by
    unfold wordAlign
    by_cases hwhole : n % 32 = 0
    · rw [if_pos hwhole]
      omega
    · rw [if_neg hwhole]
      omega
  simp only [alignUp?, checkedAdd, hrest, hsum]

end ContractMachine.Quantity
