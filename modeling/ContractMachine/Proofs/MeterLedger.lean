import ContractMachine.Gas.Meter
import Mathlib.Tactic.Lemma

/-!
# What a meter records

A meter that accepts an entry had not failed, and its new ledger differs from the old one
exactly by that entry. A meter that refuses an entry stays as it was. From this follow the
laws that executions rely on: the limit never changes, a meter that works goes on working,
and what is used never exceeds the limit.
-/

namespace ContractMachine.Proofs

/-- `Booked rules m l e l'` says that `m`, whose ledger is `l`, can pay for the entry `e` and
then holds the ledger `l'`. -/
inductive Booked (rules : Rules) (m : Meter) (l : Ledger) : Entry → Ledger → Prop
  | cost {amount : Nat} (hle : amount ≤ m.gas) :
    Booked rules m l (.cost amount) { l with usedGas := l.usedGas + amount }
  | refund (amount : Int) :
    Booked rules m l (.refund amount)
      { l with refundedGas := Quantity.signedSaturatingAdd l.refundedGas amount }
  | stipend (amount : Nat) :
    Booked rules m l (.stipend amount) { l with usedGas := l.usedGas - amount }
  | deposit {length : Nat} (hle : length * Gas.codeByte ≤ m.gas) :
    Booked rules m l (.deposit length) { l with usedGas := l.usedGas + length * Gas.codeByte }
  | priced {price : Price} {memoryEnd : Option Nat} {b : Bill}
      (hbill : Meter.bill rules l.memoryGas price memoryEnd = .ok b)
      (hle : b.cost + (b.memoryGas - l.memoryGas) ≤ m.gas)
      (hforward : price.forwarded ≤ m.gas - (b.cost + (b.memoryGas - l.memoryGas))) :
    Booked rules m l (.priced price memoryEnd)
      ⟨b.memoryGas, l.usedGas + b.cost,
        Quantity.signedSaturatingAdd l.refundedGas b.refund⟩

lemma take_booked {m m' : Meter} {amount : Nat} (h : Meter.take amount m = (.ok (), m')) :
    ∃ l, m.ledger = some l ∧ amount ≤ m.gas ∧
      m' = ⟨m.limit, some { l with usedGas := l.usedGas + amount }⟩ := by
  unfold Meter.take at h
  cases hl : m.ledger with
  | none => simp [hl] at h
  | some l =>
    by_cases hgas : m.gas < amount
    · simp [hl, hgas] at h
    · simp only [hl, if_neg hgas, Prod.mk.injEq, true_and] at h
      exact ⟨l, rfl, by omega, h.symm⟩

lemma pay_booked {rules : Rules} {m m' : Meter} {price : Price} {memoryEnd : Option Nat}
    (h : Meter.pay rules price memoryEnd m = (.ok (), m')) :
    ∃ l, m.ledger = some l ∧ ∃ l', m' = ⟨m.limit, some l'⟩ ∧
      Booked rules m l (.priced price memoryEnd) l' := by
  unfold Meter.pay at h
  cases hl : m.ledger with
  | none => simp [hl] at h
  | some l =>
    cases hbill : Meter.bill rules l.memoryGas price memoryEnd with
    | error e => simp [hl, hbill] at h
    | ok b =>
      by_cases hlimit : Quantity.limit ≤ b.cost + (b.memoryGas - l.memoryGas)
      · simp [hl, hbill, hlimit] at h
      · by_cases hgas : m.gas < b.cost + (b.memoryGas - l.memoryGas)
        · simp [hl, hbill, hlimit, hgas] at h
        · by_cases hforward : m.gas - (b.cost + (b.memoryGas - l.memoryGas)) < price.forwarded
          · simp [hl, hbill, hlimit, hgas, hforward] at h
          · simp only [hl, hbill, if_neg hlimit, if_neg hgas, if_neg hforward, Prod.mk.injEq,
              true_and] at h
            exact ⟨l, rfl, _, h.symm, .priced hbill (by omega) (by omega)⟩

/-- An entry that a meter accepts is booked in full. -/
theorem record_booked {rules : Rules} {m m' : Meter} {e : Entry}
    (h : m.record rules e = (.ok (), m')) :
    ∃ l, m.ledger = some l ∧ ∃ l', m' = ⟨m.limit, some l'⟩ ∧ Booked rules m l e l' := by
  cases e with
  | cost amount =>
    obtain ⟨l, hl, hle, rfl⟩ := take_booked h
    exact ⟨l, hl, _, rfl, .cost hle⟩
  | deposit length =>
    simp only [Meter.record] at h
    by_cases hfits : length * Gas.codeByte < Quantity.limit
    · rw [if_pos hfits] at h
      obtain ⟨l, hl, hle, rfl⟩ := take_booked h
      exact ⟨l, hl, _, rfl, .deposit hle⟩
    · rw [if_neg hfits] at h
      simp [Action.fault] at h
  | refund amount =>
    cases hl : m.ledger with
    | none => simp [Meter.record, hl] at h
    | some l =>
      simp only [Meter.record, hl, Prod.mk.injEq, true_and] at h
      exact ⟨l, rfl, _, h.symm, .refund amount⟩
  | stipend amount =>
    cases hl : m.ledger with
    | none => simp [Meter.record, hl] at h
    | some l =>
      simp only [Meter.record, hl, Prod.mk.injEq, true_and] at h
      exact ⟨l, rfl, _, h.symm, .stipend amount⟩
  | priced price memoryEnd => exact pay_booked h

lemma take_refused {m m' : Meter} {amount : Nat} {f : Fault}
    (h : Meter.take amount m = (.error f, m')) : m' = m := by
  unfold Meter.take at h
  cases hl : m.ledger with
  | none => simp_all
  | some l =>
    by_cases hgas : m.gas < amount <;> simp_all

lemma pay_refused {rules : Rules} {m m' : Meter} {price : Price} {memoryEnd : Option Nat}
    {f : Fault} (h : Meter.pay rules price memoryEnd m = (.error f, m')) : m' = m := by
  unfold Meter.pay at h
  cases hl : m.ledger with
  | none => simp_all
  | some l =>
    simp only [hl] at h
    cases hbill : Meter.bill rules l.memoryGas price memoryEnd with
    | error e => simp_all
    | ok b =>
      simp only [hbill] at h
      repeat' split at h
      all_goals simp_all

/-- A meter that refuses an entry stays as it was. -/
theorem record_refused {rules : Rules} {m m' : Meter} {e : Entry} {f : Fault}
    (h : m.record rules e = (.error f, m')) : m' = m := by
  cases e with
  | cost amount => exact take_refused h
  | deposit length =>
    simp only [Meter.record] at h
    by_cases hfits : length * Gas.codeByte < Quantity.limit
    · rw [if_pos hfits] at h
      exact take_refused h
    · rw [if_neg hfits] at h
      simp_all [Action.fault]
  | refund amount => cases hl : m.ledger <;> simp_all [Meter.record]
  | stipend amount => cases hl : m.ledger <;> simp_all [Meter.record]
  | priced price memoryEnd => exact pay_refused h

/-- Every entry leaves the meter as it was or books one. -/
lemma record_cases (rules : Rules) (m : Meter) (e : Entry) :
    (∃ f, m.record rules e = (.error f, m)) ∨
      ∃ l l', m.ledger = some l ∧ m.record rules e = (.ok (), ⟨m.limit, some l'⟩) ∧
        Booked rules m l e l' := by
  obtain ⟨result, m', h⟩ : ∃ result m', m.record rules e = (result, m') := ⟨_, _, rfl⟩
  cases result with
  | error f =>
    have hm := record_refused h
    subst hm
    exact .inl ⟨f, h⟩
  | ok u =>
    obtain ⟨l, hl, l', rfl, hbooked⟩ := record_booked h
    exact .inr ⟨l, l', hl, h, hbooked⟩

lemma record_limit (rules : Rules) (m : Meter) (e : Entry) :
    (m.record rules e).2.limit = m.limit := by
  obtain ⟨f, h⟩ | ⟨l, l', hl, h, hbooked⟩ := record_cases rules m e <;> rw [h]

/-- A meter that has not failed does not fail by recording. -/
lemma record_hasFailed (rules : Rules) (m : Meter) (e : Entry) :
    (m.record rules e).2.hasFailed = m.hasFailed := by
  obtain ⟨f, h⟩ | ⟨l, l', hl, h, hbooked⟩ := record_cases rules m e
  · rw [h]
  · rw [h]
    simp [Meter.hasFailed, hl]

/-- Within its limit, used gas and memory gas together. -/
def Solvent (m : Meter) : Prop := m.totalUsedGas ≤ m.limit

lemma solvent_new (limit : Nat) : Solvent (.new limit) := by
  simp [Solvent, Meter.totalUsedGas, Meter.new]

lemma memoryBill_ge {paid total : Nat} {memoryEnd : Option Nat}
    (h : Meter.memoryBill paid memoryEnd = .ok total) : paid ≤ total := by
  cases memoryEnd with
  | none =>
    have heq : paid = total := by simpa [Meter.memoryBill] using h
    omega
  | some stop =>
    cases hcost : Gas.memoryCost (Gas.words stop) with
    | error e => simp [Meter.memoryBill, hcost, bind, Except.bind] at h
    | ok cost =>
      have heq : max paid cost = total := by
        simpa [Meter.memoryBill, hcost, bind, Except.bind, pure, Except.pure] using h
      omega

/-- A bill holds the price of the instruction, that of the memory, and what is given back. -/
lemma bill_ok {rules : Rules} {paid : Nat} {price : Price} {memoryEnd : Option Nat} {b : Bill}
    (h : Meter.bill rules paid price memoryEnd = .ok b) :
    price.cost rules = .ok b.cost ∧ Meter.memoryBill paid memoryEnd = .ok b.memoryGas ∧
      b.refund = price.refund rules := by
  cases hmemory : Meter.memoryBill paid memoryEnd with
  | error e => simp [Meter.bill, hmemory, bind, Except.bind] at h
  | ok memoryGas =>
    cases hcost : price.cost rules with
    | error e => simp [Meter.bill, hmemory, hcost, bind, Except.bind] at h
    | ok cost =>
      have hb : (⟨cost, memoryGas, price.refund rules⟩ : Bill) = b := by
        simpa [Meter.bill, hmemory, hcost, bind, Except.bind, pure, Except.pure] using h
      subst hb
      exact ⟨rfl, rfl, rfl⟩

/-- A bill is the price of the instruction over a price of memory that never shrinks. -/
lemma bill_parts {rules : Rules} {paid : Nat} {price : Price} {memoryEnd : Option Nat} {b : Bill}
    (h : Meter.bill rules paid price memoryEnd = .ok b) :
    price.cost rules = .ok b.cost ∧ paid ≤ b.memoryGas := by
  obtain ⟨hcost, hmemory, -⟩ := bill_ok h
  exact ⟨hcost, memoryBill_ge hmemory⟩

lemma gas_of_ledger {m : Meter} {l : Ledger} (hl : m.ledger = some l) :
    m.gas = m.limit - l.usedGas - l.memoryGas := by
  simp [Meter.gas, hl]

lemma totalUsedGas_of_ledger {m : Meter} {l : Ledger} (hl : m.ledger = some l) :
    m.totalUsedGas = l.usedGas + l.memoryGas := by
  simp [Meter.totalUsedGas, hl]

/-- What an entry adds to the gas that is left at most. -/
def restoredGas : Entry → Nat
  | .stipend amount => amount
  | .cost _ | .refund _ | .deposit _ | .priced _ _ => 0

/-- The total of a ledger grows at most by the gas that is left, and it shrinks at most by what
the entry restores. -/
lemma booked_total {rules : Rules} {m : Meter} {l l' : Ledger} {e : Entry}
    (h : Booked rules m l e l') :
    l'.usedGas + l'.memoryGas ≤ l.usedGas + l.memoryGas + m.gas ∧
      l.usedGas + l.memoryGas ≤ l'.usedGas + l'.memoryGas + restoredGas e := by
  cases h with
  | cost hle => simp only [restoredGas]; omega
  | refund amount => simp only [restoredGas]; omega
  | stipend amount => simp only [restoredGas]; omega
  | deposit hle => simp only [restoredGas]; omega
  | priced hbill hle hforward =>
    have hmemory := (bill_parts hbill).2
    simp only [restoredGas]
    omega

/-- Recording keeps a meter within its limit. -/
lemma record_solvent {rules : Rules} {m : Meter} {e : Entry} (hm : Solvent m) :
    Solvent (m.record rules e).2 := by
  obtain ⟨f, h⟩ | ⟨l, l', hl, h, hbooked⟩ := record_cases rules m e
  · rw [h]
    exact hm
  · rw [h]
    have hgas := gas_of_ledger hl
    have htotal := totalUsedGas_of_ledger hl
    have hgrows := (booked_total hbooked).1
    unfold Solvent at hm ⊢
    show l'.usedGas + l'.memoryGas ≤ m.limit
    omega

lemma gas_le_limit (m : Meter) : m.gas ≤ m.limit := by
  cases hl : m.ledger with
  | none => simp [Meter.gas, hl]
  | some l =>
    have hgas := gas_of_ledger hl
    omega

/-- Only gas given back by a nested frame adds to the gas that is left. -/
lemma record_gas_le (rules : Rules) (m : Meter) (e : Entry) :
    (m.record rules e).2.gas ≤ m.gas + restoredGas e := by
  obtain ⟨f, h⟩ | ⟨l, l', hl, h, hbooked⟩ := record_cases rules m e
  · rw [h]
    exact Nat.le_add_right _ _
  · rw [h]
    have hgas := gas_of_ledger hl
    have hshrinks := (booked_total hbooked).2
    show m.limit - l'.usedGas - l'.memoryGas ≤ m.gas + restoredGas e
    omega

end ContractMachine.Proofs
