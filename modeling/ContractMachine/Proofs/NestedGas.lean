import ContractMachine.Proofs.FrameTree
import ContractMachine.Proofs.Termination

/-!
# The gas of nested frames

A step that enters a frame pays its own price and hands gas over. This gas, and perhaps a stipend,
is the limit of the frame, and what the frame leaves goes back to the one around it unless it is
discarded. The price of a call that sends value is more than the stipend, so that neither the
bounds of quantities nor those of the ledger are ever met, and no gas comes from nothing.
-/

namespace ContractMachine.Proofs

/-- The charge for a task that is priced by its operands: the price of the instruction, and that
of the memory which the task adds. -/
inductive Charged (c : Configuration) (task : Task) : Nat → Prop
  | intro {price : Price} {l : Ledger} {b : Bill}
      (hprice : c.executor.price task.op c.context.address c.machine.stack = .ok price)
      (hledger : c.executor.frame.meter.ledger = some l)
      (hbill : Meter.bill c.executor.rules l.memoryGas price task.memoryEnd = .ok b) :
    Charged c task (b.cost + (b.memoryGas - l.memoryGas))

/-- The gas that an instruction hands over, and the stipend that is put on top of it. -/
inductive HandsOver (c : Configuration) (cost : Nat) : Instruction → Nat → Nat → Prop
  | call {scheme : CallScheme} {operand : Word} (hgas : c.machine.stack.peek 0 = .ok operand) :
    HandsOver c cost (.call scheme) operand.toNat
      (if sentValue scheme c.machine.stack ≠ 0 then 2300 else 0)
  | create {handed : Nat} (hrest : handed + cost = c.executor.gas) :
    HandsOver c cost .create handed 0

/-- The gas accounts of a step that enters a frame. The frame was entered as `entered`, it came to
`last` and was closed, and the step left `after`. -/
structure Balanced (c : Configuration) (task : Task) (entered last : Executor) (closing : Closing)
    (after : Executor) (cost handed stipend : Nat) : Prop where
  charged : Charged c task cost
  handsOver : HandsOver c cost task.operation.behaviour handed stipend
  limit : entered.frame.meter.limit = handed + stipend
  stipendFits : Quantity.saturatingAdd handed stipend = handed + stipend
  restFits : ∃ parent snapshot rest l, last.waiting = (parent, snapshot) :: rest ∧
    parent.meter.ledger = some l ∧ last.gas ≤ l.usedGas
  gas : after.gas + cost + handed =
    c.executor.gas + if closing = .discard then 0 else last.gas
  less : after.gas < c.executor.gas

/-- A task that is paid for by its operands, with the ledger before and the bill. -/
structure Paid (c : Configuration) (task : Task) (ready : Executor) (price : Price) (l : Ledger)
    (b : Bill) : Prop where
  priced : c.executor.price task.op c.context.address c.machine.stack = .ok price
  ledger : c.executor.frame.meter.ledger = some l
  bill : Meter.bill c.executor.rules l.memoryGas price task.memoryEnd = .ok b
  left : ready.gas + (b.cost + (b.memoryGas - l.memoryGas)) = c.executor.gas
  forwarded : price.forwarded ≤ ready.gas
  paid : ∃ refunded, ready.frame.meter.ledger = some ⟨b.memoryGas, l.usedGas + b.cost, refunded⟩
  within : l.usedGas + b.cost + b.memoryGas + ready.gas = ready.frame.meter.limit

/-- A task that is priced by its operands is booked with this price. -/
lemma Performs.booked {c : Configuration} {task : Task} {grown : Machine} {ready : Executor}
    (h : Performs c task grown ready) (hstatic : task.op.staticCost? = none) :
    ∃ price l l', c.executor.price task.op c.context.address c.machine.stack = .ok price ∧
      c.executor.frame.meter.ledger = some l ∧
      ready.frame.meter = ⟨c.executor.frame.meter.limit, some l'⟩ ∧
      Booked c.executor.rules c.executor.frame.meter l (.priced price task.memoryEnd) l' := by
  cases h with
  | @intro paid _ hvetted hcharge hgrow =>
    obtain ⟨f, hrefused⟩ | ⟨e, hrecord, he⟩ := charge_cases task.op c.context.address
      c.machine.stack task.memoryEnd c.executor
    · rw [hrefused] at hcharge
      cases hcharge
    · obtain ⟨cost, hcost, -⟩ | ⟨price, hprice, rfl⟩ := he
      · rw [hstatic] at hcost
        cases hcost
      · rw [hrecord, record_eq, Prod.mk.injEq] at hcharge
        obtain ⟨hresult, rfl⟩ := hcharge
        obtain ⟨l, hl, l', hmeter, hbooked⟩ := record_booked (Prod.ext hresult rfl)
        rw [emit_frame]
        exact ⟨price, l, l', hprice, hl, hmeter, hbooked⟩

lemma Performs.paid {c : Configuration} {task : Task} {grown : Machine} {ready : Executor}
    (h : Performs c task grown ready) (hstatic : task.op.staticCost? = none)
    (hpriced : ∀ price, c.executor.price task.op c.context.address c.machine.stack = .ok price →
      ∀ cost, price.cost c.executor.rules = .ok cost → 0 < cost) :
    ∃ price l b, Paid c task ready price l b := by
  obtain ⟨price, l, l', hprice, hl, hmeter, hbooked⟩ := h.booked hstatic
  have hgas := gas_of_ledger hl
  have hbefore : c.executor.gas = c.executor.frame.meter.gas := rfl
  cases hbooked with
  | @priced _ _ b hbill hle hforward =>
    have hmemory := (bill_parts hbill).2
    have hpos := hpriced price hprice b.cost (bill_parts hbill).1
    have hleft : ready.gas = c.executor.frame.meter.limit - (l.usedGas + b.cost) -
        b.memoryGas := by
      simp only [Executor.gas, hmeter, Meter.gas]
    refine ⟨price, l, b, hprice, hl, hbill, by omega, by omega, ?_, ?_⟩
    · rw [hmeter]
      exact ⟨_, rfl⟩
    · rw [hmeter]
      show l.usedGas + b.cost + b.memoryGas + ready.gas = c.executor.frame.meter.limit
      omega

/-- The price of a call sees to it that the gas operand is left. -/
lemma price_forwarded {ex : Executor} {op : Opcode} {scheme : CallScheme}
    (hop : op.instruction? = some (.call scheme)) {address : Address} {stack : Stack}
    {price : Price} {cost : Nat} (hprice : ex.price op address stack = .ok price)
    (hcost : price.cost ex.rules = .ok cost) :
    ∃ gas, stack.peek 0 = .ok gas ∧ price.forwarded = gas.toNat := by
  simp only [Executor.price, hop] at hprice
  cases scheme with
  | call =>
    obtain ⟨value, -, hk⟩ := peek_bind_ok hprice
    obtain ⟨gas, hgas, hk⟩ := peek_bind_ok hk
    obtain ⟨target, -, hk⟩ := peek_bind_ok hk
    cases hk
    exact ⟨gas, hgas, rfl⟩
  | callCode =>
    obtain ⟨value, -, hk⟩ := peek_bind_ok hprice
    obtain ⟨gas, hgas, hk⟩ := peek_bind_ok hk
    cases hk
    exact ⟨gas, hgas, rfl⟩
  | delegateCall =>
    cases hfork : ex.rules.fork with
    | frontier =>
      simp only [hfork, Except.ok.injEq] at hprice
      subst hprice
      cases hcost
    | homestead =>
      simp only [hfork] at hprice
      obtain ⟨gas, hgas, hk⟩ := peek_bind_ok hprice
      cases hk
      exact ⟨gas, hgas, rfl⟩

/-- The gas limit of the frame of an order. -/
def Order.gasLimit (ex : Executor) : Order → Nat
  | .call o => ex.callGasLimit ((Order.call o).gas ex) o.withStipend o.transfer
  | .create o => (Order.create o).gas ex

lemma pay_meter {ex paid : Executor} {order : Order} {l : Ledger}
    (h : order.pay ex = (.ok (), paid)) (hl : ex.frame.meter.ledger = some l) :
    order.gas ex ≤ ex.gas ∧ paid.frame.meter =
      ⟨ex.frame.meter.limit, some { l with usedGas := l.usedGas + order.gas ex }⟩ := by
  unfold Order.pay at h
  rw [record_eq, Prod.mk.injEq, emit_frame] at h
  obtain ⟨hresult, rfl⟩ := h
  obtain ⟨l', hl', after, hmeter, hbooked⟩ := record_booked (Prod.ext hresult rfl)
  rw [hl, Option.some.injEq] at hl'
  subst hl'
  cases hbooked with
  | cost hle => exact ⟨hle, hmeter⟩

lemma Enters.limit {ex entered : Executor} {order : Order} (h : Enters ex order entered) :
    entered.frame.meter.limit = order.gasLimit ex := by
  cases h with
  | @call o paid hpay =>
    have hrules := (pay_evolves 0 hpay).keeps.rules
    show paid.callGasLimit _ _ _ = _
    simp only [Order.gasLimit, Executor.callGasLimit, hrules]
  | create haccepted hpay => rfl

lemma Enters.working {ex entered : Executor} {order : Order} (h : Enters ex order entered) :
    ∃ l, ex.frame.meter.ledger = some l := by
  have hpaid {paid : Executor} (hpay : order.pay ex = (.ok (), paid)) :
      ∃ l, ex.frame.meter.ledger = some l := by
    rw [Order.pay, record_eq, Prod.mk.injEq, emit_frame] at hpay
    obtain ⟨l, hl, -⟩ := record_booked (Prod.ext hpay.1 rfl)
    exact ⟨l, hl⟩
  cases h with
  | call hpay | create haccepted hpay => exact hpaid hpay

/-- Entering a frame moves the gas that is handed over out of the meter around it. -/
lemma Enters.meter {ex entered : Executor} {order : Order} {l : Ledger}
    (h : Enters ex order entered) (hl : ex.frame.meter.ledger = some l) :
    order.gas ex ≤ ex.gas ∧ ∃ outer, entered = outer.enter (order.gasLimit ex) false ∧
      Keeps ex outer ∧ outer.frame.meter =
        ⟨ex.frame.meter.limit, some { l with usedGas := l.usedGas + order.gas ex }⟩ := by
  have hlimit := h.limit
  cases h with
  | @call o paid hpay =>
    obtain ⟨hle, hmeter⟩ := pay_meter hpay hl
    exact ⟨hle, paid, congrArg (paid.enter · false) hlimit, (pay_evolves 0 hpay).keeps, hmeter⟩
  | @create o paid haccepted hpay =>
    obtain ⟨hle, hmeter⟩ := pay_meter hpay hl
    have hraised : Keeps paid (raiseNonce o.caller paid) :=
      keeps_withWorld (extends_setNonce paid.world o.caller _)
    exact ⟨hle, raiseNonce o.caller paid, rfl, (pay_evolves 0 hpay).keeps.trans hraised, hmeter⟩

/-- The ledger around a frame with the meter `inner` once this frame is closed. -/
def restoredLedger (closing : Closing) (l : Ledger) (inner : Meter) : Ledger :=
  match closing with
  | .commit => ⟨l.memoryGas, l.usedGas - inner.gas,
      Quantity.signedSaturatingAdd l.refundedGas inner.refundedGas⟩
  | .revert => { l with usedGas := l.usedGas - inner.gas }
  | .discard => l

lemma close_meter {outer last : Executor} {gasLimit : Nat} {l : Ledger}
    (h : Keeps (outer.enter gasLimit false) last) (hl : outer.frame.meter.ledger = some l)
    (closing : Closing) :
    (last.close closing).frame.meter =
      ⟨outer.frame.meter.limit, some (restoredLedger closing l last.frame.meter)⟩ := by
  rw [Executor.close, leave_eq closing h]
  cases closing with
  | discard =>
    rw [restoredLedger, ← hl]
    rfl
  | revert | commit =>
    simp only [Frame.giveBack, Executor.recordAll, Action.bind_apply, Action.pure_apply, record_eq,
      Meter.record, hl, restoredLedger]

/-- A frame that is not discarded gives all of its gas back, if the ledger around it has used as
much. -/
lemma close_gas_eq {outer last : Executor} {gasLimit : Nat} {l : Ledger}
    (h : Keeps (outer.enter gasLimit false) last) (hl : outer.frame.meter.ledger = some l)
    (hwithin : l.usedGas + l.memoryGas ≤ outer.frame.meter.limit) (hback : last.gas ≤ l.usedGas)
    (closing : Closing) :
    (last.close closing).gas = outer.gas + if closing = .discard then 0 else last.gas := by
  have houter : outer.gas = outer.frame.meter.limit - l.usedGas - l.memoryGas := gas_of_ledger hl
  have hlast : last.gas = last.frame.meter.gas := rfl
  rw [Executor.gas, close_meter h hl]
  cases closing with
  | discard => exact houter.symm
  | revert | commit =>
    simp only [Meter.gas, restoredLedger, reduceCtorEq, if_false] at hlast ⊢
    omega

/-- The accounts of the step are balanced whatever the frame makes of its gas, since the price of
the order is more than the stipend. -/
lemma Paid.balanced {c : Configuration} {task : Task} {ready entered last : Executor}
    {price : Price} {l : Ledger} {b : Bill} {order : Order} {stipend : Nat}
    (hpaid : Paid c task ready price l b) (henters : Enters ready order entered)
    (hhands : HandsOver c (b.cost + (b.memoryGas - l.memoryGas)) task.operation.behaviour
      (order.gas ready) stipend)
    (hlimit : order.gasLimit ready = order.gas ready + stipend) (hstipend : stipend < b.cost)
    (hfits : Quantity.saturatingAdd (order.gas ready) stipend = order.gas ready + stipend)
    (hkeeps : Keeps entered last) (closing : Closing) {after : Executor}
    (hafter : after.gas = (last.close closing).gas) :
    Balanced c task entered last closing after (b.cost + (b.memoryGas - l.memoryGas))
      (order.gas ready) stipend := by
  obtain ⟨refunded, hledger⟩ := hpaid.paid
  have hentered := henters.limit
  obtain ⟨hle, outer, rfl, -, hmeter⟩ := henters.meter hledger
  have hspent : outer.frame.meter.ledger =
      some ⟨b.memoryGas, l.usedGas + b.cost + order.gas ready, refunded⟩ := by rw [hmeter]
  have hlast : last.gas ≤ order.gas ready + stipend := by
    have hgas := gas_le_limit last.frame.meter
    have hsame := hkeeps.limit
    have heq : last.gas = last.frame.meter.gas := rfl
    omega
  have hback : last.gas ≤ l.usedGas + b.cost + order.gas ready := by omega
  have hwithin := hpaid.within
  have houterLimit : outer.frame.meter.limit = ready.frame.meter.limit := by rw [hmeter]
  have hclosed := close_gas_eq hkeeps hspent (by simp only; omega) hback closing
  have houter : outer.gas = outer.frame.meter.limit - (l.usedGas + b.cost + order.gas ready) -
      b.memoryGas := gas_of_ledger hspent
  have hleft := hpaid.left
  have hgas : after.gas + (b.cost + (b.memoryGas - l.memoryGas)) + order.gas ready =
      c.executor.gas + if closing = .discard then 0 else last.gas := by
    rw [hafter, hclosed]
    omega
  have hreturned : (if closing = .discard then 0 else last.gas) ≤ order.gas ready + stipend := by
    by_cases hdiscard : closing = .discard
    · rw [if_pos hdiscard]
      exact Nat.zero_le _
    · rw [if_neg hdiscard]
      exact hlast
  exact {
    charged := .intro hpaid.priced hpaid.ledger hpaid.bill
    handsOver := hhands
    limit := hentered.trans hlimit
    stipendFits := hfits
    restFits := ⟨_, _, _, _, hkeeps.waiting, hspent, hback⟩
    gas := hgas
    less := by omega }

/-- Whatever a step leaves after an order that entered a frame, it leaves the gas that the frame
around it has once the frame is closed. -/
lemma Orders.closed {fuel : Nat} {c : Configuration} {task : Task} {order : Order}
    {ready entered : Executor} {p : Progress} (horders : Orders c task order ready)
    (henters : Enters ready order entered)
    (h : step (run fuel) c.context c.machine c.executor = some p) :
    ∃ last closing, Passes (run fuel) ready order entered last closing ∧
      (Progress.executor p).gas = (last.close closing).gas := by
  obtain ⟨after, event, hcarried, hp⟩ := horders.carriedOut h
  have hgas : (Progress.executor p).gas = after.gas := by rw [hp, emit_gas]
  obtain hrefused | ⟨entered', last, closing, henters', hpasses, hcloses⟩ :=
    carryOut_cases (run_evolves fuel) hcarried
  · exact absurd hrefused henters.not_refused
  · rw [henters.unique henters'] at hpasses
    refine ⟨last, closing, hpasses, hgas.trans ?_⟩
    cases hcloses with
    | plain => rfl
    | founded => rfl

/-- A call whose gas operand is left hands exactly this gas over. -/
lemma gas_of_operand {ex : Executor} {o : CallOrder} {operand : Word}
    (htarget : o.targetGas = operand.toQuantity?) (hle : operand.toNat ≤ ex.gas)
    (hquantity : ex.gas ≤ Quantity.max) : (Order.call o).gas ex = operand.toNat := by
  have hfits : operand.toNat < Quantity.limit := Nat.lt_succ_of_le (Nat.le_trans hle hquantity)
  simp only [Order.gas, htarget, Word.toQuantity?, if_pos hfits, Option.getD_some]
  exact Nat.min_eq_left hle

/-- An instruction that is priced by its operands and lets its frame go on is paid for by more than
its bonus. -/
lemma Performs.paidOver {c : Configuration} {task : Task} {grown : Machine} {ready : Executor}
    {i : Instruction} (hs : IsStandard c.executor.instructions) (hr : Metered c.executor.rules)
    (h : Performs c task grown ready) (hi : task.operation.behaviour = i)
    (hdynamic : i.staticCost? = none) (hends : endsFrame i = false) :
    ∃ price l b, Paid c task ready price l b ∧ task.op.instruction? = some i ∧
      bonus c.executor.rules c.machine.stack i < b.cost := by
  have hop := (task_of_standard hs h.vetted.1).2.1
  rw [hi] at hop
  have hstatic : task.op.staticCost? = none := by simp [Opcode.staticCost?, hop, hdynamic]
  have hbonus := bonus_lt_toll hr c.machine.stack hends
  have hpriced (price : Price)
      (hprice : c.executor.price task.op c.context.address c.machine.stack = .ok price) (cost : Nat)
      (hcost : price.cost c.executor.rules = .ok cost) :
      bonus c.executor.rules c.machine.stack i < cost :=
    Nat.lt_of_lt_of_le hbonus (price_toll hr hop hprice hcost)
  obtain ⟨price, l, b, hpaid⟩ := h.paid hstatic fun price hprice cost hcost =>
    Nat.zero_lt_of_lt (hpriced price hprice cost hcost)
  exact ⟨price, l, b, hpaid, hop, hpriced price hpaid.priced b.cost (bill_parts hpaid.bill).1⟩

/-- Every order is paid for by more than its stipend. -/
lemma Orders.handsOver {c : Configuration} {task : Task} {order : Order} {ready : Executor}
    (hs : IsStandard c.executor.instructions) (hr : ForkPriced c.executor.rules)
    (hquantity : c.executor.gas ≤ Quantity.max) (h : Orders c task order ready) :
    ∃ price l b stipend, Paid c task ready price l b ∧
      HandsOver c (b.cost + (b.memoryGas - l.memoryGas)) task.operation.behaviour
        (order.gas ready) stipend ∧
      stipend < b.cost ∧ (order.gasLimit ready = order.gas ready ∧ stipend = 0 ∨
        order.gasLimit ready = Quantity.saturatingAdd (order.gas ready) stipend) := by
  cases h with
  | @call grown taken _ scheme request hperforms hinstruction htake =>
    obtain ⟨price, l, b, hpaid, hop, hbonus⟩ :=
      hperforms.paidOver hs hr.metered hinstruction rfl rfl
    have hstack := hperforms.vetted.2
    have hready : ready.rules = c.executor.rules := hperforms.evolves.keeps.rules
    -- The operand that the price reserves is the one that the call hands over.
    obtain ⟨operand, hoperand, hforwarded⟩ :=
      price_forwarded hop hpaid.priced (bill_parts hpaid.bill).1
    have hgas := (takeCall_operands htake).1
    rw [hstack, hoperand, Except.ok.injEq] at hgas
    subst hgas
    have hleft := hpaid.left
    have henough := hpaid.forwarded
    rw [hforwarded] at henough
    refine ⟨price, l, b, if sentValue scheme c.machine.stack ≠ 0 then 2300 else 0, hpaid, ?_, ?_,
      ?_⟩
    · rw [hinstruction, gas_of_operand rfl henough (by omega)]
      exact .call hoperand
    · simp only [bonus, hr.callStipend] at hbonus
      exact hbonus
    · have hsends := sendsValue_eq c.context htake
      rw [hstack] at hsends
      simp only [Order.gasLimit, Executor.callGasLimit, hsends, Bool.true_and, hready,
        hr.callStipend]
      by_cases hvalue : sentValue scheme c.machine.stack = 0
      · left
        simp [hvalue]
      · right
        rw [if_pos (bne_iff_ne.mpr hvalue), if_pos hvalue]
  | @create grown taken _ value initCode hperforms hinstruction htake =>
    obtain ⟨price, l, b, hpaid, -, hbonus⟩ :=
      hperforms.paidOver hs hr.metered hinstruction rfl rfl
    have hall : (Order.create ⟨c.context.address, value, initCode, none⟩).gas ready = ready.gas :=
      Nat.min_self _
    refine ⟨price, l, b, 0, hpaid, ?_, hbonus, .inl ⟨rfl, rfl⟩⟩
    rw [hinstruction, hall]
    exact .create hpaid.left

/-- Every call and every creation that enters a frame balances. -/
theorem nested_gas_balances {fuel : Nat} {c : Configuration} {task : Task} {order : Order}
    {ready entered : Executor} {p : Progress} (hs : IsStandard c.executor.instructions)
    (hr : ForkPriced c.executor.rules) (hquantity : c.executor.gas ≤ Quantity.max)
    (horders : Orders c task order ready) (henters : Enters ready order entered)
    (h : step (run fuel) c.context c.machine c.executor = some p) :
    ∃ last closing cost handed stipend, Passes (run fuel) ready order entered last closing ∧
      Balanced c task entered last closing (Progress.executor p) cost handed stipend := by
  obtain ⟨last, closing, hpasses, hclosed⟩ := horders.closed henters h
  obtain ⟨price, l, b, stipend, hpaid, hhands, hstipend, hlimit⟩ :=
    horders.handsOver hs hr hquantity
  have hkeeps := (hpasses.evolves (run_evolves fuel)).keeps
  have hfits : Quantity.saturatingAdd (order.gas ready) stipend = order.gas ready + stipend := by
    obtain ⟨refunded, hledger⟩ := hpaid.paid
    have hle := (henters.meter hledger).1
    have hleft := hpaid.left
    apply Nat.min_eq_left
    omega
  have hlimit' : order.gasLimit ready = order.gas ready + stipend := by
    obtain ⟨hlimit, rfl⟩ | hlimit := hlimit
    · exact hlimit
    · rw [hlimit, hfits]
  exact ⟨last, closing, _, _, stipend, hpasses,
    hpaid.balanced henters hhands hlimit' hstipend hfits hkeeps closing hclosed⟩

/-- A frame about to send value to an account whose code takes one step. -/
def payingConfiguration : Configuration :=
  let accounts : Std.ExtTreeMap Address Account :=
    (Std.ExtTreeMap.empty.insert 0xa ⟨0, 5, ∅, #[0xf1]⟩).insert 0xb ⟨0, 0, ∅, #[0x5b]⟩
  { context := ⟨0xa, 0xc, 0⟩
    machine := { Machine.start #[0xf1] #[] 1024 4096 with
      stack := ⟨[500, 0xb, 1, 0, 0, 0, 0], 1024⟩ }
    executor := (Executor.new (.ofAccounts accounts) .homestead .zero).reset 0xc 90000 }

theorem nested_gas_balances_payingConfiguration :
    ∃ task order ready entered p last closing cost handed stipend,
      Orders payingConfiguration task order ready ∧ Enters ready order entered ∧
      step (run 9) payingConfiguration.context payingConfiguration.machine
        payingConfiguration.executor = some p ∧
      Passes (run 9) ready order entered last closing ∧
      Balanced payingConfiguration task entered last closing (Progress.executor p) cost handed
        stipend ∧
      (Progress.executor p).gas + 9040 + 500 = 90000 + 2799 := by
  have hget : InstructionSet.homestead.get .call = .standard (.call .call) := by decide +kernel
  have hinstructions : payingConfiguration.executor.instructions = .homestead := rfl
  have hvetted : payingConfiguration.executor.admit payingConfiguration.machine =
      .ok ⟨.call, .standard (.call .call), none⟩ := by
    have hop : payingConfiguration.machine.opcode? = some .call := by decide +kernel
    unfold Executor.admit
    simp only [hop, hinstructions, hget]
    rfl
  obtain ⟨o, ready, paid, horders, hpay⟩ : ∃ o ready paid,
      Orders payingConfiguration ⟨.call, .standard (.call .call), none⟩ (.call o) ready ∧
        (Order.call o).pay ready = (.ok (), paid) :=
    ⟨_, _, _, .call (.intro hvetted rfl rfl) rfl rfl, rfl⟩
  have henters := Enters.call hpay
  have hends : (step (run 9) payingConfiguration.context payingConfiguration.machine
      payingConfiguration.executor).map (fun p => (Progress.executor p).gas) = some 83259 := by
    decide +kernel
  obtain ⟨p, hstep, hgas⟩ := Option.map_eq_some_iff.mp hends
  obtain ⟨last, closing, cost, handed, stipend, hpasses, hbalanced⟩ :=
    nested_gas_balances (.inr hinstructions) ⟨.homestead, rfl⟩ (by decide) horders henters hstep
  exact ⟨_, _, _, _, p, last, closing, cost, handed, stipend, horders, henters, hstep, hpasses,
    hbalanced, by omega⟩

end ContractMachine.Proofs
