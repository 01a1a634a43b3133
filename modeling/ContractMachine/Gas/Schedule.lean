import ContractMachine.Rules

/-!
# The gas schedule

Fixed prices, and the formulas for prices that depend on a length. A price that does not fit a
quantity is refused, but for that of a call, which wraps.
-/

namespace ContractMachine.Gas

def base : Nat := 2
def veryLow : Nat := 3
def low : Nat := 5
def mid : Nat := 8
def high : Nat := 10
def jumpDest : Nat := 1
def blockHash : Nat := 20
def exp : Nat := 10
def sha3 : Nat := 30
def sha3Word : Nat := 6
def copyWord : Nat := 3
def log : Nat := 375
def logTopic : Nat := 375
def logByte : Nat := 8
def create : Nat := 32000
def codeByte : Nat := 200
def callValue : Nat := 9000
def newAccount : Nat := 25000
def memoryWord : Nat := 3
def memoryDivisor : Nat := 512
def selfDestructRefund : Int := 24000

/-- The amount, unless it is no quantity. -/
def bounded (amount : Nat) : Except Fault Nat :=
  if amount < Quantity.limit then .ok amount else .error .gasUintOverflow

/-- What a calculation with quantities comes to, unless it left them on the way. -/
def computed : Option Nat → Except Fault Nat
  | some amount => .ok amount
  | none => .error .gasUintOverflow

/-- The number of words that hold `length` bytes. -/
def words (length : Nat) : Nat := (length + 31) / 32

/-- The number of words that an operand takes as a length in bytes. -/
def wordsOf (length : Word) : Except Fault Nat :=
  match length.toQuantity? with
  | some length => .ok (length / 32 + if length % 32 = 0 then 0 else 1)
  | none => .error .gasUintOverflow

/-- A base price and a price for each word of `length` bytes. -/
def perWord (base wordPrice : Nat) (length : Word) : Except Fault Nat := do
  let count ← wordsOf length
  computed do
    let cost ← Quantity.checkedMul count wordPrice
    Quantity.checkedAdd cost base

/-- The number of bytes of `w` without leading zero bytes. -/
def byteLength (w : Word) : Nat := if w = 0 then 0 else w.toNat.log2 / 8 + 1

def expCost (rules : Rules) (power : Word) : Except Fault Nat :=
  if power = 0 then .ok exp
  else
    computed do
      let cost ← Quantity.checkedMul rules.expByteGas (byteLength power)
      Quantity.checkedAdd cost exp

def sha3Cost (length : Word) : Except Fault Nat := perWord sha3 sha3Word length

def copyCost (length : Word) : Except Fault Nat := perWord veryLow copyWord length

def extCodeCopyCost (rules : Rules) (length : Word) : Except Fault Nat :=
  perWord rules.extCodeGas copyWord length

def logCost (topics : Nat) (length : Word) : Except Fault Nat :=
  match length.toQuantity? with
  | some length =>
    computed do
      let cost ← Quantity.checkedMul length logByte
      let cost ← Quantity.checkedAdd cost log
      Quantity.checkedAdd cost (logTopic * topics)
  | none => .error .gasUintOverflow

def sstoreCost (rules : Rules) (current new : Word) : Nat :=
  if current = 0 ∧ new ≠ 0 then rules.sstoreSetGas else rules.sstoreResetGas

def sstoreRefund (rules : Rules) (current new : Word) : Int :=
  if current ≠ 0 ∧ new = 0 then rules.sstoreClearRefund else 0

/-- The price of a call before the gas that it hands over. It alone is summed without a check. -/
def callCost (rules : Rules) (value : Word) (newTarget : Bool) : Nat :=
  let cost := rules.callGas
  let cost := if value ≠ 0 then Quantity.wrappingAdd cost callValue else cost
  if newTarget then Quantity.wrappingAdd cost newAccount else cost

/-- The price of all memory up to `count` words. The square of `count` has to be a quantity. -/
def memoryCost (count : Nat) : Except Fault Nat :=
  computed do
    let linear ← Quantity.checkedMul count memoryWord
    let square ← Quantity.checkedMul count count
    Quantity.checkedAdd linear (square / memoryDivisor)

/-! ### In one step -/

theorem wordsOf_eq (length : Word) :
    wordsOf length =
      if length.toNat < Quantity.limit then .ok (words length.toNat)
      else .error .gasUintOverflow := by
  have hwords : (length.toNat / 32 + if length.toNat % 32 = 0 then 0 else 1) =
      words length.toNat := by
    unfold words
    by_cases hwhole : length.toNat % 32 = 0
    · rw [if_pos hwhole]
      omega
    · rw [if_neg hwhole]
      omega
  unfold wordsOf Word.toQuantity?
  by_cases hlength : length.toNat < Quantity.limit
  · simp only [hlength, if_true, hwords]
  · simp only [hlength, if_false]

theorem computed_checkedAdd (a b : Nat) : computed (Quantity.checkedAdd a b) = bounded (a + b) := by
  unfold Quantity.checkedAdd bounded
  by_cases hfits : a + b < Quantity.limit
  · rw [if_pos hfits, if_pos hfits]
    rfl
  · rw [if_neg hfits, if_neg hfits]
    rfl

theorem perWord_eq (base wordPrice : Nat) (length : Word) :
    perWord base wordPrice length =
      if length.toNat < Quantity.limit then bounded (words length.toNat * wordPrice + base)
      else .error .gasUintOverflow := by
  unfold perWord
  rw [wordsOf_eq]
  by_cases hlength : length.toNat < Quantity.limit
  · rw [if_pos hlength, if_pos hlength, ← computed_checkedAdd]
    exact congrArg computed (Quantity.checkedMul_bind fun hfar =>
      Quantity.checkedAdd_eq_none (Nat.le_trans hfar (Nat.le_add_right _ _)))
  · rw [if_neg hlength, if_neg hlength]
    rfl

theorem expCost_eq (rules : Rules) (power : Word) :
    expCost rules power = bounded (rules.expByteGas * byteLength power + exp) := by
  unfold expCost
  by_cases hzero : power = 0
  · subst hzero
    rfl
  · rw [if_neg hzero, ← computed_checkedAdd]
    exact congrArg computed (Quantity.checkedMul_bind fun hfar =>
      Quantity.checkedAdd_eq_none (Nat.le_trans hfar (Nat.le_add_right _ _)))

theorem logCost_eq (topics : Nat) (length : Word) :
    logCost topics length =
      if length.toNat < Quantity.limit then
        bounded (length.toNat * logByte + log + logTopic * topics)
      else .error .gasUintOverflow := by
  unfold logCost Word.toQuantity?
  by_cases hlength : length.toNat < Quantity.limit
  · rw [if_pos hlength, if_pos hlength, ← computed_checkedAdd]
    refine congrArg computed (Eq.trans (Quantity.checkedMul_bind fun hfar => ?_)
      (Quantity.checkedAdd_bind fun hfar => ?_))
    · rw [Quantity.checkedAdd_eq_none (Nat.le_trans hfar (Nat.le_add_right _ _))]
      rfl
    · exact Quantity.checkedAdd_eq_none (Nat.le_trans hfar (Nat.le_add_right _ _))
  · rw [if_neg hlength, if_neg hlength]

/-- The price of a call as the number that it is where the sum does not wrap. -/
def callSum (rules : Rules) (value : Word) (newTarget : Bool) : Nat :=
  rules.callGas + (if value ≠ 0 then callValue else 0) + (if newTarget then newAccount else 0)

theorem callSum_lt {rules : Rules}
    (h : rules.callGas + (callValue + newAccount) < Quantity.limit) (value : Word)
    (newTarget : Bool) : callSum rules value newTarget < Quantity.limit := by
  refine Nat.lt_of_le_of_lt ?_ h
  unfold callSum
  split <;> split <;> omega

theorem callCost_eq {rules : Rules} {value : Word} {newTarget : Bool}
    (h : callSum rules value newTarget < Quantity.limit) :
    callCost rules value newTarget = callSum rules value newTarget := by
  unfold callSum at h ⊢
  unfold callCost
  by_cases hsends : value ≠ 0
  · simp only [if_pos hsends] at h ⊢
    have hfirst : Quantity.wrappingAdd rules.callGas callValue = rules.callGas + callValue :=
      Quantity.wrappingAdd_eq (Nat.lt_of_le_of_lt (Nat.le_add_right _ _) h)
    cases newTarget with
    | false => simp only [hfirst, Bool.false_eq_true, if_false, Nat.add_zero]
    | true =>
      simp only [if_true] at h ⊢
      rw [hfirst, Quantity.wrappingAdd_eq h]
  · simp only [if_neg hsends, Nat.add_zero] at h ⊢
    cases newTarget with
    | false => simp only [Bool.false_eq_true, if_false, Nat.add_zero]
    | true =>
      simp only [if_true] at h ⊢
      exact Quantity.wrappingAdd_eq h

example : callCost { Rules.homestead with callGas := Quantity.max } 1 false = 8999 := by decide

theorem memoryCost_eq (count : Nat) :
    memoryCost count =
      if count * count < Quantity.limit then
        bounded (count * memoryWord + count * count / memoryDivisor)
      else .error .gasUintOverflow := by
  unfold memoryCost
  by_cases hsquare : count * count < Quantity.limit
  · have hcount := (Quantity.mul_self_lt_limit_iff count).mp hsquare
    have hlinear : count * memoryWord < Quantity.limit := by
      unfold memoryWord Quantity.limit
      omega
    rw [if_pos hsquare, ← computed_checkedAdd]
    exact congrArg computed (Eq.trans
      (Quantity.checkedMul_bind fun hfar => absurd hlinear (Nat.not_lt_of_le hfar))
      (Quantity.checkedMul_bind fun hfar => absurd hsquare (Nat.not_lt_of_le hfar)))
  · rw [if_neg hsquare]
    have hnone : Quantity.checkedMul count count = none := if_neg hsquare
    rw [hnone]
    cases Quantity.checkedMul count memoryWord <;> rfl

end ContractMachine.Gas
