import ContractMachine.Proofs.MeterUses
import ContractMachine.Proofs.PaidMemory
import ContractMachine.Proofs.TaskRefunds
import Mathlib.Algebra.BigOperators.Group.List.Basic
import Mathlib.Algebra.Ring.Int.Defs

/-!
# Charges in any order

What a single charge takes depends on what was charged before, since memory is paid for by what it
adds to the largest memory so far. What a list of charges takes does not depend on their order: it
is the price of each operation, and once the price of the largest memory beyond what is paid
already. The list is paid exactly if every charge has a price and this sum is left.
-/

namespace ContractMachine.Proofs

/-- Whether the price reserves gas for the frame of a call. -/
def isCallPrice : Price → Bool
  | .call _ _ _ | .callCode _ _ | .delegateCall _ => true
  | _ => false

/-- A charge for an operation that is no call. -/
inductive Charge : Entry → Prop
  | cost (amount : Nat) : Charge (.cost amount)
  | priced {price : Price} (memoryEnd : Option Nat) (hprice : isCallPrice price = false) :
    Charge (.priced price memoryEnd)

/-- The price of the operation, without that of its memory. -/
def operationCost (rules : Rules) : Entry → Nat
  | .cost amount => amount
  | .priced price _ => (price.cost rules).toOption.getD 0
  | .refund _ | .stipend _ | .deposit _ => 0

/-- The memory that an entry asks for. -/
def memoryEndOf : Entry → Nat
  | .priced _ memoryEnd => memoryEnd.getD 0
  | .cost _ | .refund _ | .stipend _ | .deposit _ => 0

/-- The price of the operation and that of its memory are quantities. -/
def Payable (rules : Rules) : Entry → Prop
  | .priced price memoryEnd =>
    (∃ cost, price.cost rules = .ok cost) ∧
      ∃ total, Gas.memoryCost (Gas.words (memoryEnd.getD 0)) = .ok total
  | .cost _ | .refund _ | .stipend _ | .deposit _ => True

section Sums

variable (rules : Rules) (charges : List Entry)

def totalCost : Nat := (charges.map (operationCost rules)).sum

def totalRefund : Int := (charges.map (refundOf rules)).sum

/-- The largest memory that one of the charges asks for. -/
def largestEnd : Nat := (charges.map memoryEndOf).foldr max 0

/-- The price of the largest memory. -/
def largestPrice : Nat := memoryPrice (Gas.words (largestEnd charges))

/-- The meter that has paid for the charges. -/
def chargedMeter (m : Meter) (l : Ledger) : Meter :=
  ⟨m.limit, some
    ⟨max l.memoryGas (largestPrice charges), l.usedGas + totalCost rules charges,
      min (l.refundedGas + totalRefund rules charges) Quantity.signedMax⟩⟩

end Sums

variable {rules : Rules} {m m' : Meter} {l : Ledger} {e : Entry} {charges : List Entry}

lemma memoryBill_eq_ok_iff {paid total : Nat} {memoryEnd : Option Nat} :
    Meter.memoryBill paid memoryEnd = .ok total ↔
      (∃ own, Gas.memoryCost (Gas.words (memoryEnd.getD 0)) = .ok own) ∧
        total = max paid (memoryPrice (Gas.words (memoryEnd.getD 0))) := by
  cases memoryEnd with
  | none =>
    have hnone : max paid (memoryPrice (Gas.words 0)) = paid := Nat.max_eq_left (Nat.zero_le _)
    have hfree : Gas.memoryCost (Gas.words 0) = .ok 0 := rfl
    simp [Meter.memoryBill, hnone, hfree, eq_comm]
  | some stop =>
    cases hcost : Gas.memoryCost (Gas.words stop) with
    | error f => simp [Meter.memoryBill, hcost, bind, Except.bind]
    | ok cost =>
      have hprice := (memoryCost_ok hcost).1
      simp [Meter.memoryBill, hcost, bind, Except.bind, pure, Except.pure, hprice, eq_comm]

lemma bill_eq_ok_iff {paid : Nat} {price : Price} {memoryEnd : Option Nat} {b : Bill} :
    Meter.bill rules paid price memoryEnd = .ok b ↔
      Payable rules (.priced price memoryEnd) ∧
        b = ⟨operationCost rules (.priced price memoryEnd),
          max paid (memoryPrice (Gas.words (memoryEnd.getD 0))), price.refund rules⟩ := by
  constructor
  · intro h
    obtain ⟨hcost, hmemory, hrefund⟩ := bill_ok h
    obtain ⟨hown, htotal⟩ := memoryBill_eq_ok_iff.mp hmemory
    refine ⟨⟨⟨b.cost, hcost⟩, hown⟩, ?_⟩
    have hoperation : operationCost rules (.priced price memoryEnd) = b.cost := by
      rw [operationCost, hcost]
      rfl
    rw [hoperation, ← htotal, ← hrefund]
  · rintro ⟨⟨⟨cost, hcost⟩, hown⟩, rfl⟩
    have hmemory : Meter.memoryBill paid memoryEnd =
        .ok (max paid (memoryPrice (Gas.words (memoryEnd.getD 0)))) :=
      memoryBill_eq_ok_iff.mpr ⟨hown, rfl⟩
    simp [Meter.bill, hmemory, hcost, operationCost, Except.toOption, bind, Except.bind, pure,
      Except.pure]

lemma forwarded_eq_zero {price : Price} (h : isCallPrice price = false) : price.forwarded = 0 := by
  cases price with
  | call | callCode | delegateCall => cases h
  | _ => rfl

lemma signedSaturatingAdd_of_ge {a b : Int} (ha : Quantity.signedMin ≤ a) (hb : 0 ≤ b) :
    Quantity.signedSaturatingAdd a b = min (a + b) Quantity.signedMax := by
  unfold Quantity.signedSaturatingAdd
  omega

lemma totalCost_cons (rules : Rules) (e : Entry) (charges : List Entry) :
    totalCost rules (e :: charges) = operationCost rules e + totalCost rules charges := by
  simp only [totalCost, List.map_cons, List.sum_cons]

lemma totalRefund_cons (rules : Rules) (e : Entry) (charges : List Entry) :
    totalRefund rules (e :: charges) = refundOf rules e + totalRefund rules charges := by
  simp only [totalRefund, List.map_cons, List.sum_cons]

lemma largestPrice_cons (e : Entry) (charges : List Entry) :
    largestPrice (e :: charges) =
      max (memoryPrice (Gas.words (memoryEndOf e))) (largestPrice charges) := by
  have hmono : Monotone fun stop => memoryPrice (Gas.words stop) := by
    intro a b h
    exact memoryPrice_mono (Nat.div_le_div_right (Nat.add_le_add_right h 31))
  exact hmono.map_max

lemma take_eq_ok_iff {amount : Nat} (hl : m.ledger = some l) :
    Meter.take amount m = (.ok (), m') ↔
      amount ≤ m.gas ∧ m' = ⟨m.limit, some { l with usedGas := l.usedGas + amount }⟩ := by
  unfold Meter.take
  simp only [hl]
  by_cases hgas : m.gas < amount
  · simp [hgas, Nat.not_le_of_lt hgas]
  · simp [hgas, Nat.le_of_not_lt hgas, eq_comm]

lemma pay_eq_ok_iff {price : Price} {memoryEnd : Option Nat} (hm : Sound m)
    (hl : m.ledger = some l) (hprice : isCallPrice price = false) :
    Meter.pay rules price memoryEnd m = (.ok (), m') ↔
      ∃ b, Meter.bill rules l.memoryGas price memoryEnd = .ok b ∧
        b.cost + (b.memoryGas - l.memoryGas) ≤ m.gas ∧
        m' = ⟨m.limit, some ⟨b.memoryGas, l.usedGas + b.cost,
          Quantity.signedSaturatingAdd l.refundedGas b.refund⟩⟩ := by
  constructor
  · intro h
    obtain ⟨before, hbefore, after, rfl, hbooked⟩ := pay_booked h
    rw [hl, Option.some.injEq] at hbefore
    subst hbefore
    cases hbooked with
    | priced hbill hle hforward => exact ⟨_, hbill, hle, rfl⟩
  · rintro ⟨b, hbill, hle, rfl⟩
    have hlimit := Nat.lt_of_le_of_lt (gas_le_limit m) hm.quantity
    have hquantity : ¬Quantity.limit ≤ b.cost + (b.memoryGas - l.memoryGas) := by omega
    have hgas : ¬m.gas < b.cost + (b.memoryGas - l.memoryGas) := by omega
    simp only [Meter.pay, hl, hbill, forwarded_eq_zero hprice, if_neg hquantity, if_neg hgas,
      Nat.not_lt_zero, if_false]

/-- A charge is paid if it has a price and this is left, and then no more is taken. -/
lemma record_charge_iff (hm : Sound m) (hl : m.ledger = some l) (he : Charge e)
    (hrefund : 0 ≤ refundOf rules e) :
    m.record rules e = (.ok (), m') ↔ Payable rules e ∧
      operationCost rules e + (memoryPrice (Gas.words (memoryEndOf e)) - l.memoryGas) ≤ m.gas ∧
        m' = ⟨m.limit, some
          ⟨max l.memoryGas (memoryPrice (Gas.words (memoryEndOf e))),
            l.usedGas + operationCost rules e,
            min (l.refundedGas + refundOf rules e) Quantity.signedMax⟩⟩ := by
  have hrange := hm.refunds
  rw [refundedGas_of_ledger hl] at hrange
  cases he with
  | cost amount =>
    have hmemory : max l.memoryGas (memoryPrice (Gas.words 0)) = l.memoryGas :=
      Nat.max_eq_left (Nat.zero_le _)
    have hnone : memoryPrice (Gas.words 0) - l.memoryGas = 0 := Nat.zero_sub _
    have hrefunded : min (l.refundedGas + 0) Quantity.signedMax = l.refundedGas := by omega
    simp only [Meter.record, take_eq_ok_iff hl, Payable, operationCost, memoryEndOf, refundOf,
      hmemory, hnone, hrefunded, true_and, Nat.add_zero]
  | @priced price memoryEnd hprice =>
    simp only [Meter.record, pay_eq_ok_iff hm hl hprice, bill_eq_ok_iff]
    have hrefunded := signedSaturatingAdd_of_ge hrange.1 hrefund
    simp only [refundOf, memoryEndOf] at hrefunded ⊢
    constructor
    · rintro ⟨b, ⟨hpayable, rfl⟩, hle, rfl⟩
      exact ⟨hpayable, by simp only at hle; omega, by simp only [hrefunded]⟩
    · rintro ⟨hpayable, hle, rfl⟩
      exact ⟨_, ⟨hpayable, rfl⟩, by simp only; omega, by simp only [hrefunded]⟩

lemma sstoreRefund_nonneg (hclear : 0 ≤ rules.sstoreClearRefund) (current new : Word) :
    0 ≤ Gas.sstoreRefund rules current new := by
  unfold Gas.sstoreRefund
  split
  · exact hclear
  · exact Int.le_refl 0

lemma refundOf_nonneg (hclear : 0 ≤ rules.sstoreClearRefund) (he : Charge e) :
    0 ≤ refundOf rules e := by
  cases he with
  | cost amount => exact Int.le_refl 0
  | @priced price memoryEnd hprice =>
    cases price with
    | sstore current new => exact sstoreRefund_nonneg hclear current new
    | selfDestruct alreadyMarked =>
      simp only [refundOf, Price.refund, Gas.selfDestructRefund]
      split <;> omega
    | _ => exact Int.le_refl 0

lemma totalRefund_nonneg (hclear : 0 ≤ rules.sstoreClearRefund)
    (hcharges : ∀ e ∈ charges, Charge e) : 0 ≤ totalRefund rules charges := by
  induction charges with
  | nil => exact Int.le_refl 0
  | cons e rest ih =>
    rw [List.forall_mem_cons] at hcharges
    have hfirst := refundOf_nonneg hclear hcharges.1
    have hrest := ih hcharges.2
    rw [totalRefund_cons]
    omega

lemma recordAll_cons_iff :
    Meter.recordAll rules (e :: charges) m = (.ok (), m') ↔
      ∃ mid, m.record rules e = (.ok (), mid) ∧
        Meter.recordAll rules charges mid = (.ok (), m') := by
  constructor
  · intro h
    rw [Meter.recordAll] at h
    obtain ⟨_, mid, hfirst, hrest⟩ := bind_ok h
    exact ⟨mid, hfirst, hrest⟩
  · rintro ⟨mid, hfirst, hrest⟩
    rw [Meter.recordAll, Action.bind_apply, hfirst]
    exact hrest

lemma chargedMeter_nil (hm : Sound m) (hl : m.ledger = some l) : chargedMeter rules [] m l = m := by
  have hrange := hm.refunds
  rw [refundedGas_of_ledger hl] at hrange
  have hmemory : max l.memoryGas (largestPrice []) = l.memoryGas :=
    Nat.max_eq_left (Nat.zero_le _)
  have hrefunded : min (l.refundedGas + totalRefund rules []) Quantity.signedMax =
      l.refundedGas := by
    simp only [totalRefund, List.map_nil, List.sum_nil]
    omega
  rw [chargedMeter, hmemory, hrefunded]
  exact congrArg (Meter.mk m.limit) hl.symm

/-- Charging for one entry and then for the others is charging for all of them. -/
lemma chargedMeter_cons (hrest : 0 ≤ totalRefund rules charges) {first : Ledger}
    (hfirst : first = ⟨max l.memoryGas (memoryPrice (Gas.words (memoryEndOf e))),
      l.usedGas + operationCost rules e,
      min (l.refundedGas + refundOf rules e) Quantity.signedMax⟩) :
    chargedMeter rules charges ⟨m.limit, some first⟩ first =
      chargedMeter rules (e :: charges) m l := by
  subst hfirst
  have hmemory := Nat.max_assoc l.memoryGas (memoryPrice (Gas.words (memoryEndOf e)))
    (largestPrice charges)
  have hused := Nat.add_assoc l.usedGas (operationCost rules e) (totalCost rules charges)
  have hrefunded : min (min (l.refundedGas + refundOf rules e) Quantity.signedMax +
      totalRefund rules charges) Quantity.signedMax =
        min (l.refundedGas + (refundOf rules e + totalRefund rules charges))
          Quantity.signedMax := by omega
  simp only [chargedMeter, totalCost_cons, totalRefund_cons, largestPrice_cons, hmemory, hused,
    hrefunded]

/-- Charges are paid exactly if they all have a price and the sum of these, with the memory counted
once, is left. Then this sum is what is taken. -/
theorem recordAll_charges_iff (hclear : 0 ≤ rules.sstoreClearRefund) (hm : Sound m)
    (hl : m.ledger = some l) (hcharges : ∀ e ∈ charges, Charge e) :
    Meter.recordAll rules charges m = (.ok (), m') ↔
      (∀ e ∈ charges, Payable rules e) ∧
        totalCost rules charges + (largestPrice charges - l.memoryGas) ≤ m.gas ∧
          m' = chargedMeter rules charges m l := by
  induction charges generalizing m l with
  | nil =>
    have hnothing : totalCost rules [] + (largestPrice [] - l.memoryGas) = 0 := by
      rw [show largestPrice [] = 0 from rfl, Nat.zero_sub]
      rfl
    rw [chargedMeter_nil hm hl, hnothing]
    simp [Meter.recordAll, eq_comm]
  | cons e rest ih =>
    rw [List.forall_mem_cons] at hcharges
    have hrefund := refundOf_nonneg hclear hcharges.1
    have hrefunds := totalRefund_nonneg hclear hcharges.2
    have hbalance := hm.balance hl
    have hmid : Sound (m.record rules e).2 := record_sound hm e
    rw [recordAll_cons_iff, List.forall_mem_cons, totalCost_cons, largestPrice_cons]
    constructor
    · rintro ⟨mid, hrecord, hrest⟩
      rw [hrecord] at hmid
      obtain ⟨hpayable, hle, rfl⟩ := (record_charge_iff hm hl hcharges.1 hrefund).mp hrecord
      obtain ⟨hpayables, hleft, rfl⟩ := (ih hmid rfl hcharges.2).mp hrest
      have hbalanceMid := hmid.balance rfl
      refine ⟨⟨hpayable, hpayables⟩, ?_, chargedMeter_cons hrefunds rfl⟩
      simp only at hleft hbalanceMid
      omega
    · rintro ⟨⟨hpayable, hpayables⟩, hle, rfl⟩
      have hrecord := (record_charge_iff hm hl hcharges.1 hrefund).mpr ⟨hpayable, by omega, rfl⟩
      rw [hrecord] at hmid
      have hbalanceMid := hmid.balance rfl
      refine ⟨_, hrecord, (ih hmid rfl hcharges.2).mpr ⟨hpayables, ?_, ?_⟩⟩
      · simp only at hbalanceMid ⊢
        omega
      · exact (chargedMeter_cons hrefunds rfl).symm

lemma Payable.memory (he : Payable rules e) :
    Gas.memoryCost (Gas.words (memoryEndOf e)) =
      .ok (memoryPrice (Gas.words (memoryEndOf e))) := by
  cases e with
  | priced price memoryEnd =>
    obtain ⟨-, total, htotal⟩ := he
    have hprice := (memoryCost_ok htotal).1
    rw [memoryEndOf, htotal, hprice]
  | cost | refund | stipend | deposit =>
    simp only [memoryEndOf]
    decide

/-- The largest memory has a price as every single one does. -/
lemma memoryCost_largestEnd (hcharges : ∀ e ∈ charges, Payable rules e) :
    Gas.memoryCost (Gas.words (largestEnd charges)) = .ok (largestPrice charges) := by
  induction charges with
  | nil => rfl
  | cons e rest ih =>
    rw [List.forall_mem_cons] at hcharges
    have hlargest : largestEnd (e :: rest) = max (memoryEndOf e) (largestEnd rest) := rfl
    rw [largestPrice, hlargest]
    obtain hle | hle := Nat.le_total (memoryEndOf e) (largestEnd rest)
    · rw [Nat.max_eq_right hle]
      exact ih hcharges.2
    · rw [Nat.max_eq_left hle]
      exact hcharges.1.memory

section Reordered

variable {other : List Entry} (hperm : charges.Perm other)
include hperm

lemma totalCost_perm : totalCost rules charges = totalCost rules other :=
  (hperm.map (operationCost rules)).sum_eq

lemma largestPrice_perm : largestPrice charges = largestPrice other :=
  congrArg (memoryPrice ∘ Gas.words) ((hperm.map memoryEndOf).foldr_eq 0)

lemma chargedMeter_perm : chargedMeter rules charges m l = chargedMeter rules other m l := by
  have hrefund : totalRefund rules charges = totalRefund rules other :=
    (hperm.map (refundOf rules)).sum_eq
  rw [chargedMeter, chargedMeter, totalCost_perm hperm, largestPrice_perm hperm, hrefund]

end Reordered

/-- Charges that are all paid in one order are all paid in every other order, and leave the same
meter. Each of them has a price, and what is taken is the sum of these and what the largest memory
costs beyond the memory that is paid for already. -/
theorem charges_in_any_order {rules : Rules} (hclear : 0 ≤ rules.sstoreClearRefund) {m m' : Meter}
    {l : Ledger} (hm : Sound m) (hl : m.ledger = some l) {charges other : List Entry}
    (hcharges : ∀ e ∈ charges, Charge e) (hperm : charges.Perm other)
    (h : Meter.recordAll rules charges m = (.ok (), m')) :
    Meter.recordAll rules other m = (.ok (), m') ∧ (∀ e ∈ charges, Payable rules e) ∧
      ∃ largest, Gas.memoryCost (Gas.words (largestEnd charges)) = .ok largest ∧
        m'.totalUsedGas = m.totalUsedGas + (totalCost rules charges + (largest - l.memoryGas)) ∧
        m'.gas + (totalCost rules charges + (largest - l.memoryGas)) = m.gas := by
  have hbalance := hm.balance hl
  obtain ⟨hpayable, hle, rfl⟩ := (recordAll_charges_iff hclear hm hl hcharges).mp h
  refine ⟨?_, hpayable, _, memoryCost_largestEnd hpayable, ?_, ?_⟩
  · rw [recordAll_charges_iff hclear hm hl fun e he => hcharges e (hperm.mem_iff.mpr he)]
    refine ⟨fun e he => hpayable e (hperm.mem_iff.mpr he), ?_, chargedMeter_perm hperm⟩
    rw [← totalCost_perm hperm, ← largestPrice_perm hperm]
    exact hle
  · rw [totalUsedGas_of_ledger hl, totalUsedGas_of_ledger rfl]
    simp only
    omega
  · rw [gas_of_ledger rfl]
    simp only [chargedMeter]
    omega

/-- Charges for a smaller memory and for a larger one, paid in both orders. -/
theorem charges_in_any_order_smallerMemoryFirst :
    ∃ charges other, (∀ e ∈ charges, Charge e) ∧ charges.Perm other ∧
      charges = [.priced (.sstore 1 0) none, .priced .veryLow (some 64),
        .priced .veryLow (some 4096), .cost 7] ∧
      Meter.recordAll .homestead other (.new 6000) =
        (.ok (), ⟨6000, some ⟨416, 5013, 15000⟩⟩) ∧
      ∃ largest, Gas.memoryCost (Gas.words (largestEnd charges)) = .ok largest ∧
        5429 = totalCost .homestead charges + (largest - 0) := by
  have hcharges : ∀ e ∈ [Entry.priced (.sstore 1 0) none, .priced .veryLow (some 64),
      .priced .veryLow (some 4096), .cost 7], Charge e := by
    simp only [List.forall_mem_cons]
    exact ⟨.priced _ rfl, .priced _ rfl, .priced _ rfl, .cost _, fun _ h => by cases h⟩
  have hperm := (List.reverse_perm [Entry.priced (.sstore 1 0) none, .priced .veryLow (some 64),
    .priced .veryLow (some 4096), .cost 7]).symm
  have hclear : 0 ≤ Rules.homestead.sstoreClearRefund := by decide
  have hsound : Sound (.new 6000) := sound_new (by decide)
  have hpaid : Meter.recordAll .homestead [.priced (.sstore 1 0) none, .priced .veryLow (some 64),
      .priced .veryLow (some 4096), .cost 7] (.new 6000) =
        (.ok (), ⟨6000, some ⟨416, 5013, 15000⟩⟩) := by decide +kernel
  obtain ⟨hother, -, largest, hlargest, hused, -⟩ :=
    charges_in_any_order hclear hsound rfl hcharges hperm hpaid
  exact ⟨_, _, hcharges, hperm, rfl, hother, largest, hlargest, by
    simpa [Meter.totalUsedGas, Meter.new] using hused⟩

end ContractMachine.Proofs
