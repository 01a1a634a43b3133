import ContractMachine.Proofs.MeterLedger

/-!
# Meters in use

Entries of all kinds reach a meter in any order, with any amounts, and between them it may be made
to fail. Whatever was recorded before, it never counts more than its limit, what it refuses leaves
no trace, and none of the sums and differences that it takes without a check leaves the
quantities.
-/

namespace ContractMachine.Proofs

/-- What can be done to a meter. -/
inductive MeterUse
  | record (entry : Entry)
  | fail

/-- A meter that is made to fail says that it ran out of gas. -/
def MeterUse.apply (rules : Rules) : MeterUse → Action Meter Unit
  | record entry => Meter.record rules entry
  | fail => fun m => (.error .outOfGas, m.fail)

/-- The meter after these uses, whether or not they were refused. -/
def useAll (rules : Rules) : List MeterUse → Meter → Meter
  | [], m => m
  | use :: rest, m => useAll rules rest (use.apply rules m).2

/-- A meter that counts no more than its limit, in quantities. -/
structure Sound (m : Meter) : Prop where
  quantity : m.limit < Quantity.limit
  solvent : Solvent m
  refunds : Quantity.signedMin ≤ m.refundedGas ∧ m.refundedGas ≤ Quantity.signedMax

variable {rules : Rules} {m : Meter} {l l' : Ledger} {e : Entry}

lemma sound_new {limit : Nat} (hlimit : limit < Quantity.limit) : Sound (.new limit) where
  quantity := hlimit
  solvent := solvent_new limit
  refunds := by
    show Quantity.signedMin ≤ 0 ∧ 0 ≤ Quantity.signedMax
    decide

lemma refundedGas_of_ledger (hl : m.ledger = some l) : m.refundedGas = l.refundedGas := by
  simp only [Meter.refundedGas, hl]

lemma signedSaturatingAdd_range (a b : Int) :
    Quantity.signedMin ≤ Quantity.signedSaturatingAdd a b ∧
      Quantity.signedSaturatingAdd a b ≤ Quantity.signedMax := by
  unfold Quantity.signedSaturatingAdd Quantity.signedMin Quantity.signedMax
  omega

lemma booked_refunds (h : Booked rules m l e l')
    (hl : Quantity.signedMin ≤ l.refundedGas ∧ l.refundedGas ≤ Quantity.signedMax) :
    Quantity.signedMin ≤ l'.refundedGas ∧ l'.refundedGas ≤ Quantity.signedMax := by
  cases h with
  | cost | stipend | deposit => exact hl
  | refund | priced => exact signedSaturatingAdd_range _ _

lemma record_sound (hm : Sound m) (e : Entry) : Sound (m.record rules e).2 where
  quantity := by
    rw [record_limit]
    exact hm.quantity
  solvent := record_solvent hm.solvent
  refunds := by
    obtain ⟨f, h⟩ | ⟨l, l', hl, h, hbooked⟩ := record_cases rules m e
    · rw [h]
      exact hm.refunds
    · have hbefore := hm.refunds
      rw [refundedGas_of_ledger hl] at hbefore
      rw [h]
      exact booked_refunds hbooked hbefore

lemma fail_sound (hm : Sound m) : Sound m.fail where
  quantity := hm.quantity
  solvent := Nat.le_refl _
  refunds := by
    show Quantity.signedMin ≤ 0 ∧ 0 ≤ Quantity.signedMax
    decide

lemma apply_sound (hm : Sound m) (use : MeterUse) : Sound (use.apply rules m).2 := by
  cases use with
  | record e => exact record_sound hm e
  | fail => exact fail_sound hm

lemma apply_limit (rules : Rules) (m : Meter) (use : MeterUse) :
    (use.apply rules m).2.limit = m.limit := by
  cases use with
  | record e => exact record_limit rules m e
  | fail => rfl

/-- However a meter is used, it stays sound and keeps its limit. -/
theorem useAll_sound (hm : Sound m) (uses : List MeterUse) :
    Sound (useAll rules uses m) ∧ (useAll rules uses m).limit = m.limit := by
  induction uses generalizing m with
  | nil => exact ⟨hm, rfl⟩
  | cons use rest ih =>
    have hnext : Sound (use.apply rules m).2 := apply_sound hm use
    obtain ⟨hsound, hlimit⟩ := ih hnext
    exact ⟨hsound, hlimit.trans (apply_limit rules m use)⟩

lemma Sound.gas (hm : Sound m) : m.gas + m.totalUsedGas = m.limit := by
  have hsolvent := hm.solvent
  unfold Solvent at hsolvent
  cases hl : m.ledger with
  | none => simp only [Meter.gas, Meter.totalUsedGas, hl, Nat.zero_add]
  | some l =>
    rw [totalUsedGas_of_ledger hl] at hsolvent ⊢
    rw [gas_of_ledger hl]
    omega

lemma record_failed (hl : m.ledger = none) (e : Entry) :
    m.record rules e = (.error .outOfGas, m) := by
  cases e with
  | cost amount => simp only [Meter.record, Meter.take, hl]
  | refund amount | stipend amount => simp only [Meter.record, hl]
  | deposit length =>
    by_cases hfits : length * Gas.codeByte < Quantity.limit
    · simp only [Meter.record, if_pos hfits, Meter.take, hl]
    · simp only [Meter.record, if_neg hfits, Action.fault]
  | priced price memoryEnd => simp only [Meter.record, Meter.pay, hl]

lemma apply_failed (hl : m.ledger = none) (use : MeterUse) :
    use.apply rules m = (.error .outOfGas, m) := by
  cases use with
  | record e => exact record_failed hl e
  | fail =>
    obtain ⟨limit, ledger⟩ := m
    cases hl
    rfl

/-- A failed meter stays as it is. -/
theorem useAll_failed (hl : m.ledger = none) (uses : List MeterUse) :
    useAll rules uses m = m := by
  induction uses with
  | nil => rfl
  | cons use rest ih => rw [useAll, apply_failed hl, ih]

lemma ledger_eq_none_iff (m : Meter) : m.ledger = none ↔ m.hasFailed = true :=
  Option.isNone_iff_eq_none.symm

/-- A meter works until it is made to fail. -/
theorem useAll_hasFailed (hm : m.hasFailed = false) (uses : List MeterUse) :
    (useAll rules uses m).hasFailed = true ↔ MeterUse.fail ∈ uses := by
  induction uses generalizing m with
  | nil => simp [useAll, hm]
  | cons use rest ih =>
    cases use with
    | record e =>
      have hrecorded : (m.record rules e).2.hasFailed = false := by rw [record_hasFailed, hm]
      rw [useAll, MeterUse.apply, ih hrecorded]
      simp
    | fail =>
      rw [useAll, MeterUse.apply, useAll_failed rfl]
      simp [Meter.hasFailed, Meter.fail]

lemma booked_memoryGas (h : Booked rules m l e l') : l.memoryGas ≤ l'.memoryGas := by
  cases h with
  | cost | refund | stipend | deposit => exact Nat.le_refl _
  | priced hbill => exact (bill_parts hbill).2

lemma apply_memoryGas {use : MeterUse} (hl : m.ledger = some l)
    (hl' : (use.apply rules m).2.ledger = some l') : l.memoryGas ≤ l'.memoryGas := by
  cases use with
  | fail => cases hl'
  | record e =>
    obtain ⟨f, h⟩ | ⟨before, after, hbefore, h, hbooked⟩ := record_cases rules m e
    · rw [MeterUse.apply, h, hl] at hl'
      cases hl'
      exact Nat.le_refl _
    · rw [hl] at hbefore
      rw [MeterUse.apply, h] at hl'
      cases hbefore
      cases hl'
      exact booked_memoryGas hbooked

/-- What is paid for memory never shrinks as long as the meter works. -/
theorem useAll_memoryGas {uses : List MeterUse} (hl : m.ledger = some l)
    (hl' : (useAll rules uses m).ledger = some l') : l.memoryGas ≤ l'.memoryGas := by
  induction uses generalizing m l with
  | nil =>
    rw [useAll, hl] at hl'
    cases hl'
    exact Nat.le_refl _
  | cons use rest ih =>
    rw [useAll] at hl'
    cases hmid : (use.apply rules m).2.ledger with
    | none =>
      rw [useAll_failed hmid, hmid] at hl'
      cases hl'
    | some mid => exact Nat.le_trans (apply_memoryGas hl hmid) (ih hmid hl')

/-- The differences and the sum that are taken to tell what is left and what is used. -/
def balanceResults (limit : Nat) (l : Ledger) : List Int :=
  [limit - l.usedGas, limit - l.usedGas - l.memoryGas, l.usedGas + l.memoryGas]

/-- The sums and products that are taken to find a price. -/
def priceResults (rules : Rules) : Price → List Int
  | .call value _ targetExists =>
    [Gas.callSum rules value false, Gas.callSum rules value (!targetExists)]
  | .callCode value _ => [Gas.callSum rules value false]
  | .delegateCall _ => [Gas.callSum rules 0 false]
  | .log topics _ => [Gas.logTopic * topics]
  | _ => []

/-- The sum that is taken where an amount can be paid. -/
def takingResults (gas : Nat) (l : Ledger) (amount : Nat) : List Int :=
  if amount ≤ gas then [l.usedGas + amount] else []

/-- The differences and the sum that are taken to pay a bill, where it can be paid. -/
def payingResults (gas : Nat) (l : Ledger) (b : Bill) : List Int :=
  (b.memoryGas - l.memoryGas : Int) ::
    if b.cost + (b.memoryGas - l.memoryGas) ≤ gas then
      [gas - (b.cost + (b.memoryGas - l.memoryGas)), l.usedGas + b.cost]
    else []

/-- All that a working meter computes without a check to record an entry. -/
def recordResults (rules : Rules) (m : Meter) (l : Ledger) : Entry → List Int
  | .cost amount => takingResults m.gas l amount
  | .deposit length => takingResults m.gas l (length * Gas.codeByte)
  | .refund _ | .stipend _ => []
  | .priced price memoryEnd =>
    priceResults rules price ++
      match Meter.bill rules l.memoryGas price memoryEnd with
      | .ok b => payingResults m.gas l b
      | .error _ => []

def IsQuantity (n : Int) : Prop := 0 ≤ n ∧ n < Quantity.limit

/-- The number of topics of a log fits a byte. -/
def CountsTopics (e : Entry) : Prop :=
  ∀ topics length memoryEnd, e = .priced (.log topics length) memoryEnd → topics < 256

lemma isQuantity_natCast {n : Nat} (h : n < Quantity.limit) : IsQuantity n :=
  ⟨Int.natCast_nonneg n, Int.ofNat_lt.mpr h⟩

lemma priceResults_quantities (hcall : rules.callGas ≤ Quantity.max - 34000) {price : Price}
    {memoryEnd : Option Nat} (htopics : CountsTopics (.priced price memoryEnd)) :
    ∀ n ∈ priceResults rules price, IsQuantity n := by
  have hfits : rules.callGas + (Gas.callValue + Gas.newAccount) < Quantity.limit := by
    unfold Gas.callValue Gas.newAccount Quantity.limit
    unfold Quantity.max at hcall
    omega
  have hcost (value : Word) (fresh : Bool) : IsQuantity (Gas.callSum rules value fresh) :=
    isQuantity_natCast (Gas.callSum_lt hfits value fresh)
  intro n hn
  cases price with
  | call value gas targetExists =>
    simp only [priceResults, List.mem_cons, List.not_mem_nil, or_false] at hn
    obtain rfl | rfl := hn
    · exact hcost value false
    · exact hcost value _
  | callCode value gas =>
    obtain rfl := List.mem_singleton.mp hn
    exact hcost value false
  | delegateCall gas =>
    obtain rfl := List.mem_singleton.mp hn
    exact hcost 0 false
  | log topics length =>
    have hfew := htopics topics length memoryEnd rfl
    obtain rfl := List.mem_singleton.mp hn
    unfold IsQuantity Gas.logTopic Quantity.limit
    omega
  | _ => cases hn

lemma memoryBill_lt {paid total : Nat} {memoryEnd : Option Nat} (hpaid : paid < Quantity.limit)
    (h : Meter.memoryBill paid memoryEnd = .ok total) : total < Quantity.limit := by
  cases memoryEnd with
  | none =>
    cases h
    exact hpaid
  | some stop =>
    cases hcost : Gas.memoryCost (Gas.words stop) with
    | error f => simp [Meter.memoryBill, hcost, bind, Except.bind] at h
    | ok cost =>
      have hmax : max paid cost = total := by
        simpa [Meter.memoryBill, hcost, bind, Except.bind, pure, Except.pure] using h
      have hfits : cost < Quantity.limit := by
        rw [Gas.memoryCost_eq] at hcost
        unfold Gas.bounded at hcost
        repeat' split at hcost
        all_goals cases hcost
        assumption
      omega

section Working

variable (hm : Sound m) (hl : m.ledger = some l)
include hm hl

/-- What is counted and what is left make up the limit. -/
lemma Sound.balance :
    l.usedGas + l.memoryGas + m.gas = m.limit ∧ m.limit < Quantity.limit := by
  have hgas := hm.gas
  rw [totalUsedGas_of_ledger hl] at hgas
  exact ⟨by omega, hm.quantity⟩

lemma balanceResults_quantities : ∀ n ∈ balanceResults m.limit l, IsQuantity n := by
  intro n hn
  have hbalance := hm.balance hl
  simp only [balanceResults, List.mem_cons, List.not_mem_nil, or_false] at hn
  unfold IsQuantity
  omega

lemma takingResults_quantities (amount : Nat) :
    ∀ n ∈ takingResults m.gas l amount, IsQuantity n := by
  intro n hn
  have hbalance := hm.balance hl
  unfold takingResults at hn
  split at hn
  · obtain rfl := List.mem_singleton.mp hn
    unfold IsQuantity
    omega
  · cases hn

lemma payingResults_quantities {b : Bill} (hmemory : l.memoryGas ≤ b.memoryGas)
    (hbill : b.memoryGas < Quantity.limit) : ∀ n ∈ payingResults m.gas l b, IsQuantity n := by
  intro n hn
  have hbalance := hm.balance hl
  unfold payingResults at hn
  unfold IsQuantity
  split at hn
  · simp only [List.mem_cons, List.not_mem_nil, or_false] at hn
    omega
  · simp only [List.mem_cons, List.not_mem_nil, or_false] at hn
    omega

/-- No number that recording computes without a check is out of the quantities. -/
theorem recordResults_quantities (hcall : rules.callGas ≤ Quantity.max - 34000)
    (htopics : CountsTopics e) : ∀ n ∈ recordResults rules m l e, IsQuantity n := by
  cases e with
  | cost amount => exact takingResults_quantities hm hl amount
  | deposit length => exact takingResults_quantities hm hl _
  | refund amount | stipend amount =>
    intro n hn
    cases hn
  | priced price memoryEnd =>
    intro n hn
    obtain hn | hn := List.mem_append.mp hn
    · exact priceResults_quantities hcall htopics n hn
    · cases hbill : Meter.bill rules l.memoryGas price memoryEnd with
      | error f =>
        rw [hbill] at hn
        cases hn
      | ok b =>
        rw [hbill] at hn
        have hbalance := hm.balance hl
        have hmemory := (bill_ok hbill).2.1
        exact payingResults_quantities hm hl (memoryBill_ge hmemory)
          (memoryBill_lt (by omega) hmemory) n hn

end Working

/-- However a meter is used from its start on, it counts no more than its limit, and nothing that it
computes without a check is out of the quantities. What it pays for memory never shrinks, and what
it refuses leaves no trace. Once it is made to fail it has nothing left, owes no refund and stays
so. -/
theorem meters_keep_to_their_limit {rules : Rules} (hcall : rules.callGas ≤ Quantity.max - 34000)
    {limit : Nat} (hlimit : limit < Quantity.limit) (uses : List MeterUse) {m : Meter}
    (hm : useAll rules uses (.new limit) = m) :
    m.gas + m.totalUsedGas = limit ∧ (m.hasFailed = true ↔ MeterUse.fail ∈ uses) ∧
    (∀ l, m.ledger = some l →
      l.usedGas + l.memoryGas ≤ limit ∧
      (∀ n ∈ balanceResults limit l, IsQuantity n) ∧
      (∀ e, CountsTopics e → ∀ n ∈ recordResults rules m l e, IsQuantity n) ∧
      ∀ later l', (useAll rules later m).ledger = some l' → l.memoryGas ≤ l'.memoryGas) ∧
    (∀ (use : MeterUse) f m', use ≠ .fail → use.apply rules m = (.error f, m') → m' = m) ∧
    (m.hasFailed = true → m.gas = 0 ∧ m.totalUsedGas = limit ∧ m.refundedGas = 0 ∧
      (∀ e, m.record rules e = (.error .outOfGas, m)) ∧
      ∀ later, useAll rules later m = m) := by
  have hkept : Sound (useAll rules uses (.new limit)) ∧
      (useAll rules uses (.new limit)).limit = limit := useAll_sound (sound_new hlimit) uses
  have hfails : (useAll rules uses (.new limit)).hasFailed = true ↔ MeterUse.fail ∈ uses :=
    useAll_hasFailed rfl uses
  rw [hm] at hkept hfails
  obtain ⟨hsound, hsame⟩ := hkept
  have hbalance := hsound.gas
  rw [hsame] at hbalance
  refine ⟨hbalance, hfails, ?_, ?_, ?_⟩
  · intro l hl
    have hwithin := hsound.balance hl
    have hresults := balanceResults_quantities hsound hl
    rw [hsame] at hwithin hresults
    refine ⟨Nat.le.intro hwithin.1, hresults, ?_, ?_⟩
    · exact fun e htopics => recordResults_quantities hsound hl hcall htopics
    · exact fun later l' hl' => useAll_memoryGas hl hl'
  · intro use f m' hrecords hrefused
    cases use with
    | record e => exact record_refused hrefused
    | fail => exact absurd rfl hrecords
  · intro hfailed
    have hnone := (ledger_eq_none_iff m).mpr hfailed
    have hgas : m.gas = 0 := by simp only [Meter.gas, hnone]
    have hrefunded : m.refundedGas = 0 := by simp only [Meter.refundedGas, hnone]
    rw [hgas, Nat.zero_add] at hbalance
    exact ⟨hgas, hbalance, hrefunded, record_failed hnone, useAll_failed hnone⟩

/-- A call is refused its gas by a meter that has paid for memory and got some gas back. -/
theorem meters_keep_to_their_limit_refusedCall :
    ∃ m, useAll .homestead [.record (.priced .veryLow (some 1024)), .record (.stipend 1),
        .record (.priced (.call 0 900 true) (some 2048))] (.new 1000) = m ∧
      m.ledger = some ⟨98, 2, 0⟩ ∧ m.gas + m.totalUsedGas = 1000 ∧
      (∀ n ∈ recordResults .homestead m ⟨98, 2, 0⟩ (.priced (.call 1 900 false) (some 2048)),
        IsQuantity n) ∧
      ∀ later l', (useAll .homestead later m).ledger = some l' → 98 ≤ l'.memoryGas := by
  obtain ⟨hbalance, -, hworks, -⟩ := @meters_keep_to_their_limit .homestead (by decide) 1000
    (by decide) [.record (.priced .veryLow (some 1024)), .record (.stipend 1),
      .record (.priced (.call 0 900 true) (some 2048))] _ rfl
  obtain ⟨-, -, hresults, hmemory⟩ := hworks ⟨98, 2, 0⟩ (by decide +kernel)
  exact ⟨_, rfl, by decide +kernel, hbalance,
    hresults _ (fun _ _ _ h => by cases h), hmemory⟩

end ContractMachine.Proofs
