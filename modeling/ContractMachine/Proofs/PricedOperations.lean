import ContractMachine.Proofs.FrameFaults
import ContractMachine.Proofs.MemoryNeeds

/-!
# Every operation has a price

Fixed prices, prices that depend on operands and the instruction sets are written apart. Where the
rules and the set are of one fork they fit together: every operation of the set is priced once its
operands are on the stack, and charging for it fails only for want of gas or because the amount is
no quantity.
-/

namespace ContractMachine.Proofs

/-- Gas is wanting, or an amount is no quantity. -/
def Unpaid (f : Fault) : Prop := f = .outOfGas ∨ f = .gasUintOverflow

/-- What a priced opcode is charged for: its fixed price, or a price with operands. -/
inductive Priced : Entry → Prop
  | fixed (amount : Nat) : Priced (.cost amount)
  | operands {price : Price} {memoryEnd : Option Nat} (hprice : ∀ op, price ≠ .invalid op) :
    Priced (.priced price memoryEnd)

lemma bounded_unpaid (amount : Nat) : FaultsIn Unpaid (Gas.bounded amount) :=
  .ite (faultsIn_ok _) (faultsIn_error (.inr rfl))

lemma perWord_unpaid (base wordPrice : Nat) (length : Word) :
    FaultsIn Unpaid (Gas.perWord base wordPrice length) := by
  rw [Gas.perWord_eq]
  exact .ite (bounded_unpaid _) (faultsIn_error (.inr rfl))

lemma cost_unpaid (rules : Rules) {price : Price} (hprice : ∀ op, price ≠ .invalid op) :
    FaultsIn Unpaid (price.cost rules) := by
  cases price with
  | exp power =>
    simp only [Price.cost, Gas.expCost_eq]
    exact bounded_unpaid _
  | sha3 length | copy length | extCodeCopy length => exact perWord_unpaid _ _ length
  | log topics length =>
    simp only [Price.cost, Gas.logCost_eq]
    exact .ite (bounded_unpaid _) (faultsIn_error (.inr rfl))
  | invalid op => exact absurd rfl (hprice op)
  | _ => exact faultsIn_ok _

lemma bill_unpaid (rules : Rules) (paid : Nat) {price : Price} (hprice : ∀ op, price ≠ .invalid op)
    (memoryEnd : Option Nat) : FaultsIn Unpaid (Meter.bill rules paid price memoryEnd) := by
  have hmemory : FaultsIn Unpaid (Meter.memoryBill paid memoryEnd) := by
    cases memoryEnd with
    | none => exact faultsIn_ok paid
    | some stop =>
      have hcost : FaultsIn Unpaid (Gas.memoryCost (Gas.words stop)) := by
        rw [Gas.memoryCost_eq]
        exact .ite (bounded_unpaid _) (faultsIn_error (.inr rfl))
      exact hcost.bind fun _ => faultsIn_ok _
  exact hmemory.bind fun _ => (cost_unpaid rules hprice).bind fun _ => faultsIn_ok _

lemma take_unpaid (amount : Nat) (m : Meter) : FaultsIn Unpaid (Meter.take amount m).1 := by
  unfold Meter.take
  cases m.ledger with
  | none => exact faultsIn_error (.inl rfl)
  | some l =>
    by_cases hgas : m.gas < amount
    · simp only [if_pos hgas]
      exact faultsIn_error (.inl rfl)
    · simp only [if_neg hgas]
      exact faultsIn_ok ()

lemma pay_unpaid (rules : Rules) {price : Price} (hprice : ∀ op, price ≠ .invalid op)
    (memoryEnd : Option Nat) (m : Meter) :
    FaultsIn Unpaid (Meter.pay rules price memoryEnd m).1 := by
  unfold Meter.pay
  cases m.ledger with
  | none => exact faultsIn_error (.inl rfl)
  | some l =>
    have hbill := bill_unpaid rules l.memoryGas hprice memoryEnd
    cases hb : Meter.bill rules l.memoryGas price memoryEnd with
    | error f =>
      simp only [hb]
      exact faultsIn_error (hbill f hb)
    | ok b =>
      simp only [hb]
      repeat' split
      · exact faultsIn_error (.inr rfl)
      · exact faultsIn_error (.inl rfl)
      · exact faultsIn_error (.inl rfl)
      · exact faultsIn_ok ()

lemma record_unpaid {e : Entry} (he : Priced e) (ex : Executor) :
    FaultsIn Unpaid (Executor.record e ex).1 := by
  rw [record_eq]
  cases he with
  | fixed amount => exact take_unpaid amount ex.frame.meter
  | operands hprice => exact pay_unpaid ex.rules hprice _ ex.frame.meter

/-- What has a fixed price touches no memory. -/
lemma footprint_of_staticCost {i : Instruction} {cost : Nat} (h : i.staticCost? = some cost) :
    (Operation.standard i).footprint = none := by
  cases i with
  | call scheme => cases h
  | sha3 | callDataCopy | codeCopy | extCodeCopy | mload | mstore | mstore8 | log | create | ret =>
    cases h
  | _ => rfl

lemma peek_ok {stack : Stack} {n : Nat} (h : n < stack.height) : ∃ w, stack.peek n = .ok w := by
  have hsome : stack.items[n]? = some stack.items[n] := List.getElem?_eq_getElem h
  simp only [Stack.peek, hsome]
  exact ⟨_, rfl⟩

/-- A price that is read off the operands is there as soon as they are. -/
lemma price_ok {ex : Executor} {op : Opcode} {i : Instruction} (hop : op.instruction? = some i)
    (hstatic : i.staticCost? = none) (hvalid : (Operation.standard i).valid = true)
    (hfork : i = .call .delegateCall → ex.rules.fork = .homestead) {stack : Stack}
    (hoperands : (Operation.standard i).pop ≤ stack.height) (address : Address) :
    ∃ price, ex.price op address stack = .ok price ∧ ∀ other, price ≠ .invalid other := by
  have hpeek (n : Nat) (hn : n < (Operation.standard i).pop) : ∃ w, stack.peek n = .ok w :=
    peek_ok (Nat.lt_of_lt_of_le hn hoperands)
  simp only [Executor.price, hop]
  cases i with
  | ret | mload | mstore | mstore8 | balance | extCodeSize | sload | create | selfDestruct =>
    exact ⟨_, rfl, fun _ h => by cases h⟩
  | sha3 =>
    obtain ⟨length, hlength⟩ := hpeek 1 (by decide)
    simp only [hlength]
    exact ⟨_, rfl, fun _ h => by cases h⟩
  | log topics =>
    obtain ⟨length, hlength⟩ := hpeek 1 (Nat.lt_add_left topics (by decide))
    simp only [hlength]
    exact ⟨_, rfl, fun _ h => by cases h⟩
  | callDataCopy | codeCopy =>
    obtain ⟨length, hlength⟩ := hpeek 2 (by decide)
    simp only [hlength]
    exact ⟨_, rfl, fun _ h => by cases h⟩
  | extCodeCopy =>
    obtain ⟨length, hlength⟩ := hpeek 3 (by decide)
    simp only [hlength]
    exact ⟨_, rfl, fun _ h => by cases h⟩
  | sstore =>
    obtain ⟨slot, hslot⟩ := hpeek 0 (by decide)
    obtain ⟨value, hvalue⟩ := hpeek 1 (by decide)
    simp only [hslot, hvalue]
    exact ⟨_, rfl, fun _ h => by cases h⟩
  | binary op' =>
    cases op' with
    | exp =>
      obtain ⟨power, hpower⟩ := hpeek 1 (by decide)
      simp only [hpower]
      exact ⟨_, rfl, fun _ h => by cases h⟩
    | _ => cases hstatic
  | call scheme =>
    cases scheme with
    | call =>
      obtain ⟨gas, hgas⟩ := hpeek 0 (by decide)
      obtain ⟨target, htarget⟩ := hpeek 1 (by decide)
      obtain ⟨value, hvalue⟩ := hpeek 2 (by decide)
      simp only [hgas, htarget, hvalue]
      exact ⟨_, rfl, fun _ h => by cases h⟩
    | callCode =>
      obtain ⟨gas, hgas⟩ := hpeek 0 (by decide)
      obtain ⟨value, hvalue⟩ := hpeek 2 (by decide)
      simp only [hgas, hvalue]
      exact ⟨_, rfl, fun _ h => by cases h⟩
    | delegateCall =>
      obtain ⟨gas, hgas⟩ := hpeek 0 (by decide)
      simp only [hfork rfl, hgas]
      exact ⟨_, rfl, fun _ h => by cases h⟩
  | invalid => cases hvalid
  | _ => cases hstatic

/-- The rules and the instruction set are of one fork. -/
def MatchesFork (ex : Executor) : Prop := ex.instructions = ex.rules.fork.instructions

lemma MatchesFork.standard {ex : Executor} (h : MatchesFork ex) : IsStandard ex.instructions := by
  unfold MatchesFork at h
  rw [h]
  cases ex.rules.fork with
  | frontier => exact .inl rfl
  | homestead => exact .inr rfl

lemma MatchesFork.keeps {ex ex' : Executor} (h : MatchesFork ex) (hkeeps : Keeps ex ex') :
    MatchesFork ex' := by
  unfold MatchesFork at h ⊢
  rw [hkeeps.instructions, hkeeps.rules]
  exact h

/-- Only the rules of the later fork come with delegated calls. -/
lemma MatchesFork.delegateCall {ex : Executor} (h : MatchesFork ex) {op : Opcode}
    (hop : op.instruction? = some (.call .delegateCall))
    (hvalid : (ex.instructions.get op).valid = true) : ex.rules.fork = .homestead := by
  unfold MatchesFork at h
  rw [h] at hvalid
  cases hfork : ex.rules.fork with
  | frontier =>
    simp only [hfork, Fork.instructions, InstructionSet.frontier, get_ofFn, hop] at hvalid
    cases hvalid
  | homestead => rfl

/-- Charging for an operation of the set is recording an entry that has a price. -/
theorem charge_priced {ex : Executor} (hmatches : MatchesFork ex) {op : Opcode}
    (hvalid : (ex.instructions.get op).valid = true) {stack : Stack}
    (hcheck : (ex.instructions.get op).checkStack stack = .ok ()) {memoryEnd : Option Nat}
    (hneed : memoryNeed (ex.instructions.get op) stack = .ok memoryEnd) (address : Address) :
    ∃ e, Priced e ∧ Executor.charge op address stack memoryEnd ex = Executor.record e ex := by
  have hfork (hop : op.instruction? = some (.call .delegateCall)) :=
    hmatches.delegateCall hop hvalid
  obtain ⟨i, hop, hget⟩ := standard_get hmatches.standard hvalid
  rw [hget] at hvalid hcheck hneed
  have hstaticCost : op.staticCost? = i.staticCost? := by
    simp only [Opcode.staticCost?, hop, Option.bind_some]
  cases hstatic : i.staticCost? with
  | some cost =>
    simp only [memoryNeed, footprint_of_staticCost hstatic] at hneed
    cases hneed
    refine ⟨.cost cost, .fixed cost, ?_⟩
    simp only [Executor.charge, hstaticCost, hstatic]
  | none =>
    have hdelegates (hi : i = .call .delegateCall) : ex.rules.fork = .homestead := by
      subst hi
      exact hfork hop
    obtain ⟨price, hprice, hpriced⟩ :=
      price_ok hop hstatic hvalid hdelegates (check_ok hcheck).1 address
    refine ⟨.priced price memoryEnd, .operands hpriced, ?_⟩
    simp only [Executor.charge, hstaticCost, hstatic, hprice]

end ContractMachine.Proofs
