import ContractMachine.Proofs.FrameExecution

/-!
# What an instruction takes at least

Under metered rules every instruction of a standard set that lets its frame go on takes more gas
than it can add to the frames around it, calls with a stipend included. This is the measure by
which executions come to an end.
-/

namespace ContractMachine.Proofs

def IsStandard (s : InstructionSet) : Prop := s = .frontier ∨ s = .homestead

section Slots

variable {β φ : Type}

lemma get_eq (s : InstructionSet β φ) (op : Opcode) :
    s.get op = s.operations[op.index.val] := rfl

lemma get_ofFn (f : Opcode → Operation β φ) (op : Opcode) :
    (InstructionSet.ofFn f).get op = f op := by
  have hop : (⟨UInt8.ofNat op.index.val⟩ : Opcode) = op := by
    simp [Opcode.index]
  rw [get_eq]
  simp only [InstructionSet.ofFn, Vector.getElem_ofFn]
  exact congrArg f hop

lemma get_replace (s : InstructionSet β φ) (op other : Opcode) (o : Operation β φ) :
    (s.replace op o).get other = if op = other then o else s.get other := by
  simp only [get_eq, InstructionSet.replace, Vector.getElem_set]
  by_cases h : op = other
  · subst h
    simp
  · have hindex : op.index.val ≠ other.index.val := by
      intro hindex
      apply h
      obtain ⟨byte⟩ := op
      obtain ⟨byte'⟩ := other
      exact congrArg Opcode.mk (UInt8.toNat_inj.mp hindex)
    simp [h, hindex]

end Slots

/-- The operations that belong to a standard set are those of the instructions they name. -/
lemma standard_get {s : InstructionSet} (hs : IsStandard s) {op : Opcode}
    (hvalid : (s.get op).valid = true) :
    ∃ i, op.instruction? = some i ∧ s.get op = .standard i := by
  have hfrontier (hv : (InstructionSet.frontier.get op).valid = true) :
      ∃ i, op.instruction? = some i ∧ InstructionSet.frontier.get op = .standard i := by
    simp only [InstructionSet.frontier, get_ofFn] at hv ⊢
    split at hv
    · simp [Operation.undefined] at hv
    · simp [Operation.undefined] at hv
    · next i hne hi => exact ⟨i, hi, rfl⟩
  obtain rfl | rfl := hs
  · exact hfrontier hvalid
  · rw [InstructionSet.homestead, get_replace] at hvalid ⊢
    by_cases hop : Opcode.delegateCall = op
    · subst hop
      exact ⟨.call .delegateCall, by decide, if_pos rfl⟩
    · rw [if_neg hop] at hvalid ⊢
      exact hfrontier hvalid

/-- The opcode of a call. -/
def callOpcode : CallScheme → Opcode
  | .call => .call
  | .callCode => ⟨0xf2⟩
  | .delegateCall => .delegateCall

lemma opcode_of_call {op : Opcode} {scheme : CallScheme}
    (h : op.instruction? = some (.call scheme)) : op = callOpcode scheme := by
  have hbytes : ∀ i : Fin 256, Opcode.decode (i.val / 16) (i.val % 16) = some (.call scheme) →
      i.val = (callOpcode scheme).byte.toNat := by
    cases scheme <;> decide +kernel
  have hbyte := hbytes op.index h
  obtain ⟨byte⟩ := op
  exact congrArg Opcode.mk (UInt8.toNat_inj.mp hbyte)

/-- Nothing that a frame can repeat is free, the price of a call does not wrap, and the stipend of a
call is less than what sending value takes. -/
structure Metered (rules : Rules) : Prop where
  extCode : 0 < rules.extCodeGas
  balance : 0 < rules.balanceGas
  sload : 0 < rules.sloadGas
  sstoreSet : 0 < rules.sstoreSetGas
  sstoreReset : 0 < rules.sstoreResetGas
  call : 0 < rules.callGas
  callFits : rules.callGas + (Gas.callValue + Gas.newAccount) < Quantity.limit
  stipend : rules.callStipend < rules.callGas + Gas.callValue

/-- The rules of both forks are metered. -/
theorem metered_ofFork (fork : Fork) : Metered (.ofFork fork) := by
  cases fork <;> constructor <;> decide

/-- The gas constants of a fork, under any limits. -/
def ForkPriced (rules : Rules) : Prop :=
  ∃ fork, rules =
    { Rules.ofFork fork with
      stackLimit := rules.stackLimit
      memoryLimit := rules.memoryLimit
      callDepthLimit := rules.callDepthLimit
      maxRefundQuotient := rules.maxRefundQuotient
      failsOnUnpaidCode := rules.failsOnUnpaidCode }

lemma ForkPriced.metered {rules : Rules} (h : ForkPriced rules) : Metered rules := by
  obtain ⟨fork, hrules⟩ := h
  have hfork := metered_ofFork fork
  rw [hrules]
  exact ⟨hfork.extCode, hfork.balance, hfork.sload, hfork.sstoreSet, hfork.sstoreReset, hfork.call,
    hfork.callFits, hfork.stipend⟩

lemma ForkPriced.callStipend {rules : Rules} (h : ForkPriced rules) :
    rules.callStipend = 2300 := by
  obtain ⟨fork, hrules⟩ := h
  rw [hrules]
  cases fork <;> rfl

/-- Whether an instruction ends its frame, if not in a fault. -/
def endsFrame : Instruction → Bool
  | .stop | .ret | .selfDestruct | .invalid => true
  | _ => false

/-- The value that a call sends, with its operands on the stack. -/
def sentValue (scheme : CallScheme) (stack : Stack) : Word :=
  match scheme, stack.peek 2 with
  | .call, .ok value | .callCode, .ok value => value
  | _, _ => 0

/-- What an instruction takes at least. -/
def toll (rules : Rules) (stack : Stack) : Instruction → Nat
  | .call scheme => rules.callGas + if sentValue scheme stack ≠ 0 then Gas.callValue else 0
  | i => if endsFrame i then 0 else 1

/-- What an instruction adds at most to the gas of its frame and of the frames it enters. -/
def bonus (rules : Rules) (stack : Stack) : Instruction → Nat
  | .call scheme => if sentValue scheme stack ≠ 0 then rules.callStipend else 0
  | _ => 0

lemma bonus_lt_toll {rules : Rules} (hr : Metered rules) (stack : Stack) {i : Instruction}
    (hi : endsFrame i = false) : bonus rules stack i < toll rules stack i := by
  have hcall := hr.call
  have hstipend := hr.stipend
  cases i with
  | call scheme =>
    by_cases hvalue : sentValue scheme stack ≠ 0
    · simp only [bonus, toll, if_pos hvalue]
      omega
    · simp only [bonus, toll, if_neg hvalue]
      omega
  | _ => simp_all [bonus, toll, endsFrame]

lemma record_cost_gas {ex mid : Executor} {amount : Nat}
    (h : Executor.record (.cost amount) ex = (.ok (), mid)) : mid.gas + amount ≤ ex.gas := by
  rw [record_eq, Prod.mk.injEq] at h
  obtain ⟨hresult, rfl⟩ := h
  obtain ⟨l, hl, l', hmeter, hbooked⟩ := record_booked (Prod.ext hresult rfl)
  have hgas := gas_of_ledger hl
  simp only [Executor.gas, hmeter]
  cases hbooked with
  | cost hle =>
    show ex.frame.meter.limit - (l.usedGas + amount) - l.memoryGas + amount ≤ ex.frame.meter.gas
    omega

lemma record_priced_gas {ex mid : Executor} {price : Price} {memoryEnd : Option Nat}
    (h : Executor.record (.priced price memoryEnd) ex = (.ok (), mid)) :
    ∃ cost, price.cost ex.rules = .ok cost ∧ mid.gas + cost ≤ ex.gas := by
  rw [record_eq, Prod.mk.injEq] at h
  obtain ⟨hresult, rfl⟩ := h
  obtain ⟨l, hl, l', hmeter, hbooked⟩ := record_booked (Prod.ext hresult rfl)
  have hgas := gas_of_ledger hl
  simp only [Executor.gas, hmeter]
  cases hbooked with
  | @priced _ _ b hbill hle hforward =>
    obtain ⟨hcost, hmemory⟩ := bill_parts hbill
    refine ⟨b.cost, hcost, ?_⟩
    show ex.frame.meter.limit - (l.usedGas + b.cost) - b.memoryGas + b.cost ≤ ex.frame.meter.gas
    omega

lemma toll_le_one (rules : Rules) (stack : Stack) {i : Instruction}
    (hi : ∀ scheme, i ≠ .call scheme) : toll rules stack i ≤ 1 := by
  cases i with
  | call scheme => exact absurd rfl (hi scheme)
  | _ =>
    simp only [toll]
    split <;> omega

lemma staticCost_pos {i : Instruction} {cost : Nat} (h : i.staticCost? = some cost)
    (hi : i ≠ .stop) : 0 < cost := by
  cases i with
  | binary op =>
    cases op <;> simp only [Instruction.staticCost?, Option.some.injEq, reduceCtorEq] at h <;>
      subst h <;> decide
  | stop => exact absurd rfl hi
  | _ =>
    simp only [Instruction.staticCost?, Option.some.injEq, reduceCtorEq] at h <;> subst h <;>
      decide

/-- A fixed price covers the toll. -/
lemma staticCost_toll {i : Instruction} {cost : Nat} (rules : Rules) (stack : Stack)
    (h : i.staticCost? = some cost) : toll rules stack i ≤ cost := by
  by_cases hi : i = .stop
  · subst hi
    exact Nat.zero_le _
  · have hcall (scheme : CallScheme) : i ≠ .call scheme := by
      rintro rfl
      cases h
    exact Nat.le_trans (toll_le_one rules stack hcall) (staticCost_pos h hi)

lemma bounded_eq {amount cost : Nat} (h : Gas.bounded amount = .ok cost) : cost = amount := by
  unfold Gas.bounded at h
  by_cases hfits : amount < Quantity.limit
  · rw [if_pos hfits] at h
    exact (Except.ok.inj h).symm
  · rw [if_neg hfits] at h
    cases h

lemma perWord_ge {base wordPrice cost : Nat} {length : Word}
    (h : Gas.perWord base wordPrice length = .ok cost) : base ≤ cost := by
  rw [Gas.perWord_eq] at h
  by_cases hfits : length.toNat < Quantity.limit
  · rw [if_pos hfits] at h
    have hcost := bounded_eq h
    omega
  · rw [if_neg hfits] at h
    cases h

lemma logCost_ge {topics cost : Nat} {length : Word}
    (h : Gas.logCost topics length = .ok cost) : Gas.log ≤ cost := by
  rw [Gas.logCost_eq] at h
  by_cases hfits : length.toNat < Quantity.limit
  · rw [if_pos hfits] at h
    have hcost := bounded_eq h
    omega
  · rw [if_neg hfits] at h
    cases h

lemma sstoreCost_pos {rules : Rules} (hr : Metered rules) (current new : Word) :
    0 < Gas.sstoreCost rules current new := by
  unfold Gas.sstoreCost
  by_cases hset : current = 0 ∧ new ≠ 0
  · rw [if_pos hset]
    exact hr.sstoreSet
  · rw [if_neg hset]
    exact hr.sstoreReset

lemma peek_bind_ok {stack : Stack} {n : Nat} {k : Word → Except Fault Price} {price : Price}
    (h : (stack.peek n >>= k) = .ok price) : ∃ w, stack.peek n = .ok w ∧ k w = .ok price := by
  cases hw : stack.peek n with
  | error f => simp [hw, bind, Except.bind] at h
  | ok w => exact ⟨w, rfl, by simpa [hw, bind, Except.bind] using h⟩

lemma callCost_toll {rules : Rules} (hr : Metered rules) {stack : Stack} {scheme : CallScheme}
    {value : Word} (newTarget : Bool) (hvalue : sentValue scheme stack = value) :
    toll rules stack (.call scheme) ≤ Gas.callCost rules value newTarget := by
  subst hvalue
  rw [Gas.callCost_eq (Gas.callSum_lt hr.callFits _ newTarget)]
  exact Nat.le_add_right _ _

/-- Under metered rules a price read off the operands covers the toll. -/
lemma price_toll {ex : Executor} (hr : Metered ex.rules) {op : Opcode} {i : Instruction}
    (hop : op.instruction? = some i) {address : Address} {stack : Stack} {price : Price}
    {cost : Nat} (hprice : ex.price op address stack = .ok price)
    (hcost : price.cost ex.rules = .ok cost) : toll ex.rules stack i ≤ cost := by
  simp only [Executor.price, hop] at hprice
  cases i with
  | ret | selfDestruct | stop | invalid => exact Nat.zero_le _
  | mload | mstore | mstore8 =>
    cases hprice
    cases hcost
    exact (by decide : 1 ≤ Gas.veryLow)
  | balance =>
    cases hprice
    cases hcost
    exact hr.balance
  | extCodeSize =>
    cases hprice
    cases hcost
    exact hr.extCode
  | sload =>
    cases hprice
    cases hcost
    exact hr.sload
  | sha3 =>
    obtain ⟨length, -, hk⟩ := peek_bind_ok hprice
    cases hk
    exact Nat.le_trans (by decide : 1 ≤ Gas.sha3) (perWord_ge hcost)
  | callDataCopy | codeCopy =>
    obtain ⟨length, -, hk⟩ := peek_bind_ok hprice
    cases hk
    exact Nat.le_trans (by decide : 1 ≤ Gas.veryLow) (perWord_ge hcost)
  | extCodeCopy =>
    obtain ⟨length, -, hk⟩ := peek_bind_ok hprice
    cases hk
    exact Nat.le_trans hr.extCode (perWord_ge hcost)
  | log topics =>
    obtain ⟨length, -, hk⟩ := peek_bind_ok hprice
    cases hk
    exact Nat.le_trans (by decide : 1 ≤ Gas.log) (logCost_ge hcost)
  | sstore =>
    obtain ⟨slot, -, hk⟩ := peek_bind_ok hprice
    obtain ⟨value, -, hk⟩ := peek_bind_ok hk
    cases hk
    cases hcost
    exact sstoreCost_pos hr _ _
  | create =>
    cases hprice
    cases hcost
    exact (by decide : 1 ≤ Gas.create)
  | call scheme =>
    cases scheme with
    | call =>
      obtain ⟨value, hvalue, hk⟩ := peek_bind_ok hprice
      obtain ⟨gas, -, hk⟩ := peek_bind_ok hk
      obtain ⟨target, -, hk⟩ := peek_bind_ok hk
      cases hk
      cases hcost
      exact callCost_toll hr _ (by simp only [sentValue, hvalue])
    | callCode =>
      obtain ⟨value, hvalue, hk⟩ := peek_bind_ok hprice
      obtain ⟨gas, -, hk⟩ := peek_bind_ok hk
      cases hk
      cases hcost
      exact callCost_toll hr _ (by simp only [sentValue, hvalue])
    | delegateCall =>
      cases hfork : ex.rules.fork with
      | frontier =>
        simp only [hfork, Except.ok.injEq] at hprice
        subst hprice
        cases hcost
      | homestead =>
        simp only [hfork] at hprice
        obtain ⟨gas, -, hk⟩ := peek_bind_ok hprice
        cases hk
        cases hcost
        exact callCost_toll hr _ rfl
  | binary op' =>
    cases op' with
    | exp =>
      obtain ⟨power, -, hk⟩ := peek_bind_ok hprice
      cases hk
      have heq := bounded_eq ((Gas.expCost_eq _ power).symm.trans hcost)
      have hpos : 1 ≤ Gas.exp := by decide
      exact Nat.le_trans hpos (by omega)
    | _ =>
      cases hprice
      cases hcost
  | _ =>
    cases hprice
    cases hcost

/-- What is charged for an instruction covers its toll. -/
theorem charge_toll {ex mid : Executor} (hr : Metered ex.rules) {op : Opcode} {i : Instruction}
    (hop : op.instruction? = some i) {address : Address} {stack : Stack} {memoryEnd : Option Nat}
    (h : Executor.charge op address stack memoryEnd ex = (.ok (), mid)) :
    mid.gas + toll ex.rules stack i ≤ ex.gas := by
  obtain ⟨f, hcharge⟩ | ⟨e, hcharge, he⟩ := charge_cases op address stack memoryEnd ex
  · rw [hcharge] at h
    cases h
  · rw [hcharge] at h
    obtain ⟨cost, hstatic, rfl⟩ | ⟨price, hprice, rfl⟩ := he
    · have hpaid := record_cost_gas h
      have htoll : toll ex.rules stack i ≤ cost := by
        apply staticCost_toll
        simpa [Opcode.staticCost?, hop] using hstatic
      omega
    · obtain ⟨cost, hcost, hpaid⟩ := record_priced_gas h
      have htoll := price_toll hr hop hprice hcost
      omega

end ContractMachine.Proofs
