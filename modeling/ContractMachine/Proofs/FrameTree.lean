import ContractMachine.Proofs.FailedFrames
import ContractMachine.Proofs.Termination
import Mathlib.Logic.Relation

/-!
# Frames within frames

A step may order a call or a creation. The order is refused, or it is paid for and a frame is
entered, which passes in one of a few ways before it is closed. Which frames an execution comes to
is the closure of two moves: a frame goes on to its next step, and a step starts a frame below it.
-/

namespace ContractMachine.Proofs

/-- A frame that is about to take a step. -/
structure Configuration (β : Type := Instruction) (φ : Type := Footprint) where
  context : Context
  machine : Machine
  executor : Executor β φ

structure CallOrder where
  codeAddress : Address
  transfer : Option Transfer
  input : Bytes
  targetGas : Option Nat
  withStipend : Bool
  context : Context

structure CreationOrder where
  caller : Address
  value : Word
  initCode : Bytes
  targetGas : Option Nat

inductive Order
  | call (o : CallOrder)
  | create (o : CreationOrder)

namespace Order

/-- The gas that is handed over. -/
def gas (ex : Executor) : Order → Nat
  | call o => min (o.targetGas.getD ex.gas) ex.gas
  | create o => min ex.gas (o.targetGas.getD ex.gas)

/-- The account whose frame is entered. -/
def callee (ex : Executor) : Order → Address
  | call o => o.context.address
  | create o => ex.nextCreation o.caller

def announcement (ex : Executor) : Order → Event
  | call o => .call o.codeAddress o.transfer o.input o.targetGas ex.frame.readOnly o.context
  | create o => .create o.caller (ex.nextCreation o.caller) o.value o.initCode o.targetGas

/-- The executor that carrying out the order leaves, if it ends. -/
def carryOut (runner : Runner) (ex : Executor) : Order → Option Executor
  | call o => (ex.call runner o.codeAddress o.transfer o.input o.targetGas o.withStipend
      o.context).map Prod.snd
  | create o => (ex.create runner o.caller o.value o.initCode o.targetGas).map Prod.snd

/-- What is charged for handing the gas over. -/
def pay (ex : Executor) (order : Order) : Except Fault Unit × Executor :=
  Executor.record (.cost (order.gas ex)) (ex.emit .executor (order.announcement ex))

end Order

/-- The step performs `task`: it has looked the task over, charged for it and grown the memory. -/
inductive Performs {β φ : Type} [Behaviour β φ] (c : Configuration β φ) :
    Task β φ → Machine → Executor β φ → Prop
  | intro {task : Task β φ} {paid : Executor β φ} {grown : Machine}
      (hvetted : c.executor.admit c.machine = .ok task)
      (hcharge : Executor.charge task.op c.context.address c.machine.stack task.memoryEnd
        c.executor = (.ok (), paid))
      (hgrow : Machine.grow task.memoryEnd c.machine = (.ok (), grown)) :
    Performs c task grown
      (paid.emit .runtime (.step c.context.address task.op grown.position grown.stack grown.memory))

/-- The step orders a call or a creation of the executor `ready`. -/
inductive Orders (c : Configuration) : Task → Order → Executor → Prop
  | call {task : Task} {grown taken : Machine} {ready : Executor} {scheme : CallScheme}
      {request : Machine.CallRequest} (hperforms : Performs c task grown ready)
      (hinstruction : task.operation.behaviour = .call scheme)
      (htake : Machine.takeCall scheme grown = (.ok request, taken)) :
    Orders c task (.call
      { codeAddress := request.target
        transfer := c.context.transferFor scheme request.target request.value
        input := request.input
        targetGas := request.gas.toQuantity?
        withStipend := true
        context := c.context.forCall scheme request.target request.value }) ready
  | create {task : Task} {grown taken : Machine} {ready : Executor} {value : Word}
      {initCode : Bytes} (hperforms : Performs c task grown ready)
      (hinstruction : task.operation.behaviour = .create)
      (htake : Machine.takeCreation grown = (.ok (value, initCode), taken)) :
    Orders c task (.create ⟨c.context.address, value, initCode, none⟩) ready

/-- The order is paid for, and its frame is entered. -/
inductive Enters (ex : Executor) : Order → Executor → Prop
  | call {o : CallOrder} {paid : Executor} (hpay : (Order.call o).pay ex = (.ok (), paid)) :
    Enters ex (.call o) (paid.enter
      (paid.callGasLimit ((Order.call o).gas ex) o.withStipend o.transfer) false)
  | create {o : CreationOrder} {paid : Executor}
      (haccepted : ex.creationFault o.caller o.value = none)
      (hpay : (Order.create o).pay ex = (.ok (), paid)) :
    Enters ex (.create o) ((raiseNonce o.caller paid).enter ((Order.create o).gas ex) false)

/-- The frame of an order, entered as `entered`, gets its value and is ready as `started`. -/
inductive Prepares (ex : Executor) : Order → Executor → Executor → Prop
  | call {o : CallOrder} {entered started : Executor} (hdepth : entered.isTooDeep = false)
      (htransfer : Executor.transferIfAny o.transfer (entered.ensureAccount o.context.address) =
        (.ok (), started)) :
    Prepares ex (.call o) entered started
  | create {o : CreationOrder} {entered started : Executor}
      (hfree : entered.isCollision (ex.nextCreation o.caller) = false)
      (htransfer : Executor.transfer ⟨o.caller, ex.nextCreation o.caller, o.value⟩
        (entered.onWorld fun w => w.createAccount (ex.nextCreation o.caller)) = (.ok (), started)) :
    Prepares ex (.create o) entered started

/-- The order comes to a frame that runs. -/
inductive Starts (ex : Executor) : Order → Configuration → Prop
  | call {o : CallOrder} {m : Machine} {started : Executor}
      (h : ex.openCall o.codeAddress o.transfer o.input o.targetGas o.withStipend o.context =
        .ready m started) :
    Starts ex (.call o) ⟨o.context, m, started⟩
  | create {o : CreationOrder} {m : Machine} {started : Executor}
      (h : ex.openCreation o.caller (ex.nextCreation o.caller) o.value o.initCode o.targetGas =
        .ready m started) :
    Starts ex (.create o) ⟨⟨ex.nextCreation o.caller, o.caller, o.value⟩, m, started⟩

/-- One move of an execution, to the next step of the same frame or into a frame below it. -/
inductive Leads (c : Configuration) : Configuration → Prop
  | next {fuel : Nat} {m : Machine} {ex : Executor}
      (h : step (run fuel) c.context c.machine c.executor = some (.next m ex)) :
    Leads c ⟨c.context, m, ex⟩
  | nested {task : Task} {order : Order} {ready : Executor} {child : Configuration}
      (horders : Orders c task order ready) (hstarts : Starts ready order child) : Leads c child

/-- The frames that an execution comes to, at each of their steps. -/
abbrev Reaches : Configuration → Configuration → Prop := Relation.ReflTransGen Leads

def closingOf : Exit → Closing
  | .succeed _ => .commit
  | .fault _ => .discard
  | .revert => .revert

/-- How a creation is closed once its frame has run to `inner`. -/
inductive Deposits (output : Bytes) (inner : Executor) : Exit → Executor → Closing → Prop
  | paid {halt : Halt} {last : Executor}
      (hpay : Executor.record (.deposit output.size) inner = (.ok (), last)) :
    Deposits output inner (.succeed halt) last .commit
  | unpaid {halt : Halt} {f : Fault} {last : Executor}
      (hpay : Executor.record (.deposit output.size) inner = (.error f, last)) :
    Deposits output inner (.succeed halt) last
      (if last.rules.failsOnUnpaidCode then .discard else .commit)
  | faulted (f : Fault) : Deposits output inner (.fault f) inner .discard
  | reverted : Deposits output inner .revert inner .revert

/-- The frame of an order, entered as `entered`, is closed in this way when it has come to `last`.
-/
inductive Passes (runner : Runner) (ex : Executor) :
    Order → Executor → Executor → Closing → Prop
  | tooDeep {o : CallOrder} {entered : Executor} (hdepth : entered.isTooDeep = true) :
    Passes runner ex (.call o) entered entered .revert
  | unfunded {o : CallOrder} {entered last : Executor} {f : Fault}
      (hdepth : entered.isTooDeep = false)
      (htransfer : Executor.transferIfAny o.transfer (entered.ensureAccount o.context.address) =
        (.error f, last)) :
    Passes runner ex (.call o) entered last .revert
  | codeless {o : CallOrder} {entered last : Executor}
      (hprepares : Prepares ex (.call o) entered last)
      (hcode : (ex.world.code o.codeAddress).isEmpty = true) :
    Passes runner ex (.call o) entered last .commit
  | called {o : CallOrder} {entered last : Executor} {m m' : Machine} {started : Executor}
      {exit : Exit} (hprepares : Prepares ex (.call o) entered started)
      (hstarts : Starts ex (.call o) ⟨o.context, m, started⟩)
      (hrun : runner o.context m started = some (exit, m', last)) :
    Passes runner ex (.call o) entered last (closingOf exit)
  | collided {o : CreationOrder} {entered : Executor}
      (hcollision : entered.isCollision (ex.nextCreation o.caller) = true) :
    Passes runner ex (.create o) entered entered .discard
  | unendowed {o : CreationOrder} {entered last : Executor} {f : Fault}
      (hfree : entered.isCollision (ex.nextCreation o.caller) = false)
      (htransfer : Executor.transfer ⟨o.caller, ex.nextCreation o.caller, o.value⟩
        (entered.onWorld fun w => w.createAccount (ex.nextCreation o.caller)) =
          (.error f, last)) :
    Passes runner ex (.create o) entered last .revert
  | created {o : CreationOrder} {entered inner last : Executor} {m m' : Machine}
      {started : Executor} {exit : Exit} {closing : Closing}
      (hprepares : Prepares ex (.create o) entered started)
      (hstarts : Starts ex (.create o)
        ⟨⟨ex.nextCreation o.caller, o.caller, o.value⟩, m, started⟩)
      (hrun : runner ⟨ex.nextCreation o.caller, o.caller, o.value⟩ m started =
        some (exit, m', inner))
      (hdeposits : Deposits m'.returnValue inner exit last closing) :
    Passes runner ex (.create o) entered last closing

/-- What is left of an order that enters no frame. -/
inductive Refused (ex : Executor) : Order → Executor → Prop
  | unaccepted {o : CreationOrder} {f : Fault}
      (hfault : ex.creationFault o.caller o.value = some f) :
    Refused ex (.create o) (ex.emit .executor ((Order.create o).announcement ex))
  | unpaid {order : Order} {f : Fault} {after : Executor}
      (hpay : order.pay ex = (.error f, after)) : Refused ex order after

/-- What is left once the frame of an order has come to `last` and is closed. A creation then puts
the code of the new contract in place. -/
inductive Closes (ex : Executor) : Order → Executor → Closing → Executor → Prop
  | plain (order : Order) (last : Executor) (closing : Closing) :
    Closes ex order last closing (last.close closing)
  | founded {o : CreationOrder} {child : Configuration} (last : Executor) (code : Bytes)
      (hstarts : Starts ex (.create o) child) :
    Closes ex (.create o) last .commit
      ((last.close .commit).onWorld fun w => w.setCode (ex.nextCreation o.caller) code)

/-! ### Opening a frame -/

lemma pay_eq_openCall {ex paid : Executor} {o : CallOrder}
    (hpay : (Order.call o).pay ex = (.ok (), paid)) :
    ex.openCall o.codeAddress o.transfer o.input o.targetGas o.withStipend o.context =
      paid.enterCall (ex.world.code o.codeAddress) o.input
        (paid.callGasLimit ((Order.call o).gas ex) o.withStipend o.transfer) o.transfer
        o.context.address := by
  have hworld : paid.world = ex.world := pay_world hpay
  unfold Order.pay Order.announcement Order.gas at hpay
  simp only [Executor.openCall, emit_gas, hpay, hworld]
  rfl

lemma openCall_unpaid {ex mid : Executor} {o : CallOrder} {f : Fault}
    (hpay : (Order.call o).pay ex = (.error f, mid)) :
    ex.openCall o.codeAddress o.transfer o.input o.targetGas o.withStipend o.context =
      .over ⟨.fault f, #[]⟩ mid := by
  unfold Order.pay Order.announcement Order.gas at hpay
  simp only [Executor.openCall, emit_gas, hpay]

/-- A paid call is too deep, cannot move its value, finds no code, or is ready to run. -/
lemma openCall_paid {ex entered : Executor} {o : CallOrder} (h : Enters ex (.call o) entered) :
    (entered.isTooDeep = true ∧
      ex.openCall o.codeAddress o.transfer o.input o.targetGas o.withStipend o.context =
        .over ⟨.fault .callTooDeep, #[]⟩ (entered.close .revert)) ∨
    (entered.isTooDeep = false ∧ ∃ f last,
      Executor.transferIfAny o.transfer (entered.ensureAccount o.context.address) =
        (.error f, last) ∧
      ex.openCall o.codeAddress o.transfer o.input o.targetGas o.withStipend o.context =
        .over ⟨.fault f, #[]⟩ (last.close .revert)) ∨
    ∃ started, Prepares ex (.call o) entered started ∧
      ex.openCall o.codeAddress o.transfer o.input o.targetGas o.withStipend o.context =
        if (ex.world.code o.codeAddress).isEmpty then
          .over ⟨.succeed .stopped, #[]⟩ (started.close .commit)
        else .ready (started.machine (ex.world.code o.codeAddress) o.input) started := by
  cases h with
  | @call _ paid hpay =>
    rw [pay_eq_openCall hpay, Executor.enterCall]
    generalize paid.enter (paid.callGasLimit ((Order.call o).gas ex) o.withStipend o.transfer)
      false = entered
    cases hdepth : entered.isTooDeep with
    | true => exact .inl ⟨rfl, by simp only [if_true]⟩
    | false =>
      simp only [Bool.false_eq_true, if_false]
      cases htransfer : Executor.transferIfAny o.transfer
          (entered.ensureAccount o.context.address) with
      | mk result moved =>
        cases result with
        | error f => exact .inr (.inl ⟨trivial, f, moved, rfl, rfl⟩)
        | ok u => exact .inr (.inr ⟨moved, .call hdepth htransfer, rfl⟩)

lemma pay_eq_openCreation {ex paid : Executor} {o : CreationOrder}
    (haccepted : ex.creationFault o.caller o.value = none)
    (hpay : (Order.create o).pay ex = (.ok (), paid)) :
    ex.openCreation o.caller (ex.nextCreation o.caller) o.value o.initCode o.targetGas =
      (raiseNonce o.caller paid).enterCreation o.caller (ex.nextCreation o.caller) o.value
        o.initCode ((Order.create o).gas ex) := by
  unfold Order.pay Order.announcement Order.gas at hpay
  simp only [Executor.openCreation, emit_gas, creationFault_emit, haccepted, hpay]
  rfl

/-- A paid creation meets an account that is in use, cannot move its value, or is ready to run. -/
lemma openCreation_paid {ex entered : Executor} {o : CreationOrder}
    (h : Enters ex (.create o) entered) :
    (entered.isCollision (ex.nextCreation o.caller) = true ∧
      ex.openCreation o.caller (ex.nextCreation o.caller) o.value o.initCode o.targetGas =
        .over ⟨.fault .createCollision, none, #[]⟩ (entered.close .discard)) ∨
    (entered.isCollision (ex.nextCreation o.caller) = false ∧ ∃ f last,
      Executor.transfer ⟨o.caller, ex.nextCreation o.caller, o.value⟩
        (entered.onWorld fun w => w.createAccount (ex.nextCreation o.caller)) =
          (.error f, last) ∧
      ex.openCreation o.caller (ex.nextCreation o.caller) o.value o.initCode o.targetGas =
        .over ⟨.fault f, none, #[]⟩ (last.close .revert)) ∨
    ∃ started, Prepares ex (.create o) entered started ∧
      ex.openCreation o.caller (ex.nextCreation o.caller) o.value o.initCode o.targetGas =
        .ready (started.machine o.initCode #[]) started := by
  cases h with
  | @create _ paid haccepted hpay =>
    rw [pay_eq_openCreation haccepted hpay, Executor.enterCreation]
    generalize (raiseNonce o.caller paid).enter ((Order.create o).gas ex) false = entered
    cases hfree : entered.isCollision (ex.nextCreation o.caller) with
    | true => exact .inl ⟨rfl, by simp only [if_true]⟩
    | false =>
      simp only [Bool.false_eq_true, if_false]
      cases htransfer : Executor.transfer ⟨o.caller, ex.nextCreation o.caller, o.value⟩
          (entered.onWorld fun w => w.createAccount (ex.nextCreation o.caller)) with
      | mk result moved =>
        cases result with
        | error f => exact .inr (.inl ⟨trivial, f, moved, rfl, rfl⟩)
        | ok u => exact .inr (.inr ⟨moved, .create hfree htransfer, rfl⟩)

lemma openCreation_unpaid {ex mid : Executor} {o : CreationOrder} {f : Fault}
    (haccepted : ex.creationFault o.caller o.value = none)
    (hpay : (Order.create o).pay ex = (.error f, mid)) :
    ex.openCreation o.caller (ex.nextCreation o.caller) o.value o.initCode o.targetGas =
      .over ⟨.fault f, none, #[]⟩ mid := by
  unfold Order.pay Order.announcement Order.gas at hpay
  simp only [Executor.openCreation, emit_gas, creationFault_emit, haccepted, hpay]

lemma openCreation_refused {ex : Executor} {o : CreationOrder} {f : Fault}
    (hfault : ex.creationFault o.caller o.value = some f) :
    ex.openCreation o.caller (ex.nextCreation o.caller) o.value o.initCode o.targetGas =
      .over ⟨.fault f, none, #[]⟩ (ex.emit .executor ((Order.create o).announcement ex)) := by
  simp only [Executor.openCreation, creationFault_emit, hfault]
  rfl

lemma openCall_prepared {ex entered started : Executor} {o : CallOrder}
    (henters : Enters ex (.call o) entered)
    (hprepares : Prepares ex (.call o) entered started) :
    ex.openCall o.codeAddress o.transfer o.input o.targetGas o.withStipend o.context =
      if (ex.world.code o.codeAddress).isEmpty then
        .over ⟨.succeed .stopped, #[]⟩ (started.close .commit)
      else .ready (started.machine (ex.world.code o.codeAddress) o.input) started := by
  cases henters with
  | call hpay =>
    cases hprepares with
    | call hdepth htransfer =>
      rw [pay_eq_openCall hpay]
      simp only [Executor.enterCall, hdepth, htransfer, Bool.false_eq_true, if_false]

lemma openCreation_prepared {ex entered started : Executor} {o : CreationOrder}
    (henters : Enters ex (.create o) entered)
    (hprepares : Prepares ex (.create o) entered started) :
    ex.openCreation o.caller (ex.nextCreation o.caller) o.value o.initCode o.targetGas =
      .ready (started.machine o.initCode #[]) started := by
  cases henters with
  | create haccepted hpay =>
    cases hprepares with
    | create hfree htransfer =>
      rw [pay_eq_openCreation haccepted hpay]
      simp only [Executor.enterCreation, hfree, htransfer, Bool.false_eq_true, if_false]

/-- A frame that runs was entered and got its value. -/
lemma Starts.prepared {ex : Executor} {order : Order} {child : Configuration}
    (h : Starts ex order child) :
    child.context.address = order.callee ex ∧
      ∃ entered, Enters ex order entered ∧ Prepares ex order entered child.executor := by
  cases h with
  | @call o m started hopening =>
    refine ⟨rfl, ?_⟩
    cases hpay : (Order.call o).pay ex with
    | mk result paid =>
      cases result with
      | error f =>
        rw [openCall_unpaid hpay] at hopening
        cases hopening
      | ok u =>
        have henters := Enters.call hpay
        obtain ⟨-, hover⟩ | ⟨-, f, last, -, hover⟩ | ⟨prepared, hprepares, hready⟩ :=
          openCall_paid henters
        · rw [hover] at hopening
          cases hopening
        · rw [hover] at hopening
          cases hopening
        · rw [hready] at hopening
          split at hopening
          · cases hopening
          · cases hopening
            exact ⟨_, henters, hprepares⟩
  | @create o m started hopening =>
    refine ⟨rfl, ?_⟩
    cases haccepted : ex.creationFault o.caller o.value with
    | some f =>
      rw [openCreation_refused haccepted] at hopening
      cases hopening
    | none =>
      cases hpay : (Order.create o).pay ex with
      | mk result paid =>
        cases result with
        | error f =>
          rw [openCreation_unpaid haccepted hpay] at hopening
          cases hopening
        | ok u =>
          have henters := Enters.create haccepted hpay
          obtain ⟨-, hover⟩ | ⟨-, f, last, -, hover⟩ | ⟨prepared, hprepares, hready⟩ :=
            openCreation_paid henters
          · rw [hover] at hopening
            cases hopening
          · rw [hover] at hopening
            cases hopening
          · rw [hready] at hopening
            cases hopening
            exact ⟨_, henters, hprepares⟩

lemma Starts.code {ex : Executor} {o : CallOrder} {child : Configuration}
    (h : Starts ex (.call o) child) : (ex.world.code o.codeAddress).isEmpty = false := by
  obtain ⟨-, entered, henters, -⟩ := h.prepared
  cases h with
  | call hopening =>
    obtain ⟨-, hover⟩ | ⟨-, f, last, -, hover⟩ | ⟨prepared, -, hready⟩ := openCall_paid henters
    · rw [hover] at hopening
      cases hopening
    · rw [hover] at hopening
      cases hopening
    · rw [hready] at hopening
      cases hcode : (ex.world.code o.codeAddress).isEmpty with
      | false => rfl
      | true =>
        rw [if_pos hcode] at hopening
        cases hopening

lemma carryOut_call_over (runner : Runner) {ex after : Executor} {o : CallOrder}
    {outcome : CallOutcome}
    (h : ex.openCall o.codeAddress o.transfer o.input o.targetGas o.withStipend o.context =
      .over outcome after) : (Order.call o).carryOut runner ex = some after := by
  simp only [Order.carryOut, Executor.call, h, Option.map_some]

lemma closeCall_snd (exit : Exit) (output : Bytes) (last : Executor) :
    (Executor.closeCall exit output last).2 = last.close (closingOf exit) := by
  cases exit with
  | succeed halt =>
    unfold Executor.closeCall closingOf Executor.close
    cases Executor.leave .commit last with
    | mk result after => cases result <;> rfl
  | fault f => rfl
  | revert => rfl

lemma carryOut_call_ready {runner : Runner} {ex after started : Executor} {o : CallOrder}
    {m : Machine}
    (h : ex.openCall o.codeAddress o.transfer o.input o.targetGas o.withStipend o.context =
      .ready m started) (hafter : (Order.call o).carryOut runner ex = some after) :
    ∃ exit m' last, runner o.context m started = some (exit, m', last) ∧
      after = last.close (closingOf exit) := by
  simp only [Order.carryOut, Executor.call, h] at hafter
  cases hrun : runner o.context m started with
  | none => simp [hrun] at hafter
  | some result =>
    obtain ⟨exit, m', last⟩ := result
    simp only [hrun, Option.map_some, Option.some.injEq, closeCall_snd] at hafter
    exact ⟨exit, m', last, rfl, hafter.symm⟩

/-- A call that ends was refused its gas, or its frame passed and was closed. -/
theorem carryOut_call {runner : Runner} {ex after : Executor} {o : CallOrder}
    (h : (Order.call o).carryOut runner ex = some after) :
    (∃ f, (Order.call o).pay ex = (.error f, after)) ∨
      ∃ entered last closing, Enters ex (.call o) entered ∧
        Passes runner ex (.call o) entered last closing ∧ after = last.close closing := by
  cases hpay : (Order.call o).pay ex with
  | mk result paid =>
    cases result with
    | error f =>
      have hover := carryOut_call_over runner (openCall_unpaid hpay)
      rw [hover, Option.some.injEq] at h
      subst h
      exact .inl ⟨f, rfl⟩
    | ok u =>
      right
      have henters := Enters.call hpay
      obtain ⟨hdepth, hopening⟩ | ⟨hdepth, f, last, htransfer, hopening⟩ |
        ⟨started, hprepares, hopening⟩ := openCall_paid henters
      · rw [carryOut_call_over runner hopening, Option.some.injEq] at h
        exact ⟨_, _, _, henters, .tooDeep hdepth, h.symm⟩
      · rw [carryOut_call_over runner hopening, Option.some.injEq] at h
        exact ⟨_, _, _, henters, .unfunded hdepth htransfer, h.symm⟩
      · by_cases hcode : (ex.world.code o.codeAddress).isEmpty = true
        · rw [if_pos hcode] at hopening
          rw [carryOut_call_over runner hopening, Option.some.injEq] at h
          exact ⟨_, _, _, henters, .codeless hprepares hcode, h.symm⟩
        · rw [if_neg hcode] at hopening
          obtain ⟨exit, m', last, hrun, hafter⟩ := carryOut_call_ready hopening h
          exact ⟨_, _, _, henters, .called hprepares (.call hopening) hrun, hafter⟩

lemma carryOut_create_over (runner : Runner) {ex after : Executor} {o : CreationOrder}
    {outcome : Creation}
    (h : ex.openCreation o.caller (ex.nextCreation o.caller) o.value o.initCode o.targetGas =
      .over outcome after) : (Order.create o).carryOut runner ex = some after := by
  simp only [Order.carryOut, Executor.create, h, Option.map_some]

lemma carryOut_create_ready {runner : Runner} {ex after started : Executor} {o : CreationOrder}
    {m : Machine}
    (h : ex.openCreation o.caller (ex.nextCreation o.caller) o.value o.initCode o.targetGas =
      .ready m started) (hafter : (Order.create o).carryOut runner ex = some after) :
    ∃ exit m' inner, runner ⟨ex.nextCreation o.caller, o.caller, o.value⟩ m started =
        some (exit, m', inner) ∧
      after = (Executor.closeCreation (ex.nextCreation o.caller) exit m'.returnValue inner).2 := by
  simp only [Order.carryOut, Executor.create, h] at hafter
  cases hrun : runner ⟨ex.nextCreation o.caller, o.caller, o.value⟩ m started with
  | none => simp [hrun] at hafter
  | some result =>
    obtain ⟨exit, m', inner⟩ := result
    simp only [hrun, Option.map_some, Option.some.injEq] at hafter
    exact ⟨exit, m', inner, rfl, hafter.symm⟩

/-- Once the frame of a creation is closed, at most the code of the new contract is put in
place. -/
lemma closeCreation_snd {outer inner : Executor} {gasLimit : Nat} (created : Address)
    (exit : Exit) (output : Bytes) (h : Keeps (outer.enter gasLimit false) inner) :
    ∃ last closing, Deposits output inner exit last closing ∧
      ((Executor.closeCreation created exit output inner).2 = last.close closing ∨
        closing = .commit ∧ (Executor.closeCreation created exit output inner).2 =
          (last.close .commit).onWorld fun w => w.setCode created output) := by
  cases exit with
  | fault f => exact ⟨inner, _, .faulted f, .inl (close_failMeter h)⟩
  | revert => exact ⟨inner, _, .reverted, .inl rfl⟩
  | succeed halt =>
    unfold Executor.closeCreation Executor.depositCode
    cases hpay : Executor.record (.deposit output.size) inner with
    | mk result last =>
      have hkeeps := keeps_record (.deposit output.size) inner
      rw [hpay] at hkeeps
      cases result with
      | ok u =>
        refine ⟨last, _, .paid hpay, .inr ⟨rfl, ?_⟩⟩
        unfold Executor.close
        cases hleave : Executor.leave .commit last with
        | mk left after => cases left <;> simp only <;> rw [hleave]
      | error f =>
        have hdeposits : Deposits output inner (.succeed halt) last _ := .unpaid hpay
        by_cases hfails : last.rules.failsOnUnpaidCode = true
        · rw [if_pos hfails] at hdeposits
          refine ⟨last, _, hdeposits, .inl ?_⟩
          simp only [if_pos hfails]
          exact close_failMeter (h.trans hkeeps)
        · rw [if_neg hfails] at hdeposits
          refine ⟨last, _, hdeposits, .inl ?_⟩
          unfold Executor.close
          cases hleave : Executor.leave .commit last with
          | mk left after => cases left <;> simp only [if_neg hfails, hleave]

/-! ### What a frame makes of its executor -/

lemma pay_evolves (self : Address) {ex paid : Executor} {order : Order}
    {result : Except Fault Unit} (h : order.pay ex = (result, paid)) : Evolves self ex paid := by
  have hpaid := Evolves.record self (ex.emit .executor (order.announcement ex))
    (.cost (order.gas ex))
  unfold Order.pay at h
  rw [h] at hpaid
  exact (Evolves.emit self ex .executor _).trans hpaid

lemma Enters.around {ex entered : Executor} {order : Order} (h : Enters ex order entered) :
    ∃ self outer gasLimit, Evolves self ex outer ∧ entered = outer.enter gasLimit false := by
  cases h with
  | @call o paid hpay => exact ⟨o.context.address, paid, _, pay_evolves _ hpay, rfl⟩
  | @create o paid haccepted hpay =>
    have hworld : paid.world = ex.world := pay_world hpay
    have hraised : Evolves o.caller paid (raiseNonce o.caller paid) := by
      refine .change (.raiseNonce ?_)
      rw [hworld]
      exact nonce_ne_of_creationFault haccepted
    exact ⟨o.caller, _, _, (pay_evolves _ hpay).trans hraised, rfl⟩

lemma Enters.unique {ex entered entered' : Executor} {order : Order} (h : Enters ex order entered)
    (h' : Enters ex order entered') : entered' = entered := by
  cases h with
  | call hpay =>
    cases h' with
    | call hpay' =>
      rw [hpay, Prod.mk.injEq] at hpay'
      rw [hpay'.2]
  | create haccepted hpay =>
    cases h' with
    | create haccepted' hpay' =>
      rw [hpay, Prod.mk.injEq] at hpay'
      rw [hpay'.2]

lemma Prepares.evolves {ex entered started : Executor} {order : Order}
    (h : Prepares ex order entered started) :
    Evolves (order.callee ex) entered started ∧ started.frame = entered.frame := by
  cases h with
  | @call o _ _ hdepth htransfer =>
    have hensured := ensureAccount_evolves o.context.address entered
    have hmoved := transferIfAny_evolves o.context.address o.transfer
      (entered.ensureAccount o.context.address)
    have hframe := transferIfAny_frame o.transfer (entered.ensureAccount o.context.address)
    rw [htransfer] at hmoved hframe
    exact ⟨hensured.trans hmoved, hframe.trans (ensureAccount_frame _ _)⟩
  | @create o _ _ hfree htransfer =>
    have hmoved := transfer_evolves (ex.nextCreation o.caller)
      ⟨o.caller, ex.nextCreation o.caller, o.value⟩
      (entered.onWorld fun w => w.createAccount (ex.nextCreation o.caller))
    have hframe := transfer_frame ⟨o.caller, ex.nextCreation o.caller, o.value⟩
      (entered.onWorld fun w => w.createAccount (ex.nextCreation o.caller))
    rw [htransfer] at hmoved hframe
    exact ⟨(found_evolves hfree).trans hmoved, hframe⟩

lemma Starts.surroundings {ex : Executor} {order : Order} {child : Configuration}
    (h : Starts ex order child) :
    child.executor.instructions = ex.instructions ∧ child.executor.rules = ex.rules := by
  obtain ⟨-, entered, henters, hprepares⟩ := h.prepared
  obtain ⟨self, outer, gasLimit, houter, rfl⟩ := henters.around
  have hstarted : Keeps (outer.enter gasLimit false) child.executor := hprepares.evolves.1.keeps
  exact ⟨hstarted.instructions.trans houter.keeps.instructions,
    hstarted.rules.trans houter.keeps.rules⟩

lemma Deposits.evolves (self : Address) {output : Bytes} {inner last : Executor} {exit : Exit}
    {closing : Closing} (h : Deposits output inner exit last closing) :
    Evolves self inner last := by
  cases h with
  | paid hpay | unpaid hpay =>
    have hpaid := Evolves.record self inner (.deposit output.size)
    rw [hpay] at hpaid
    exact hpaid
  | faulted f => exact .refl _ _
  | reverted => exact .refl _ _

theorem Passes.evolves {runner : Runner} (hr : EvolvingRunner runner) {ex entered last : Executor}
    {order : Order} {closing : Closing} (h : Passes runner ex order entered last closing) :
    Evolves (order.callee ex) entered last := by
  cases h with
  | tooDeep hdepth => exact .refl _ _
  | @unfunded o _ _ f hdepth htransfer =>
    have hmoved := transferIfAny_evolves o.context.address o.transfer
      (entered.ensureAccount o.context.address)
    rw [htransfer] at hmoved
    exact (ensureAccount_evolves _ _).trans hmoved
  | codeless hprepares hcode => exact hprepares.evolves.1
  | called hprepares hstarts hrun => exact hprepares.evolves.1.trans (hr hrun)
  | collided hcollision => exact .refl _ _
  | @unendowed o _ _ f hfree htransfer =>
    have hmoved := transfer_evolves (ex.nextCreation o.caller)
      ⟨o.caller, ex.nextCreation o.caller, o.value⟩
      (entered.onWorld fun w => w.createAccount (ex.nextCreation o.caller))
    rw [htransfer] at hmoved
    exact (found_evolves hfree).trans hmoved
  | created hprepares hstarts hrun hdeposits =>
    exact (hprepares.evolves.1.trans (hr hrun)).trans (hdeposits.evolves _)

lemma carryOut_create {runner : Runner} (hr : EvolvingRunner runner) {ex after : Executor}
    {o : CreationOrder} (h : (Order.create o).carryOut runner ex = some after) :
    Refused ex (.create o) after ∨ ∃ entered last closing, Enters ex (.create o) entered ∧
      Passes runner ex (.create o) entered last closing ∧
        Closes ex (.create o) last closing after := by
  cases haccepted : ex.creationFault o.caller o.value with
  | some f =>
    have hover := carryOut_create_over runner (openCreation_refused haccepted)
    rw [hover, Option.some.injEq] at h
    subst h
    exact .inl (.unaccepted haccepted)
  | none =>
    cases hpay : (Order.create o).pay ex with
    | mk result paid =>
      cases result with
      | error f =>
        have hover := carryOut_create_over runner (openCreation_unpaid haccepted hpay)
        rw [hover, Option.some.injEq] at h
        subst h
        exact .inl (.unpaid hpay)
      | ok u =>
        right
        have henters := Enters.create haccepted hpay
        obtain ⟨hcollision, hopening⟩ | ⟨hfree, f, last, htransfer, hopening⟩ |
          ⟨started, hprepares, hopening⟩ := openCreation_paid henters
        · rw [carryOut_create_over runner hopening, Option.some.injEq] at h
          subst h
          exact ⟨_, _, _, henters, .collided hcollision, .plain _ _ _⟩
        · rw [carryOut_create_over runner hopening, Option.some.injEq] at h
          subst h
          exact ⟨_, _, _, henters, .unendowed hfree htransfer, .plain _ _ _⟩
        · obtain ⟨exit, m', inner, hrun, rfl⟩ := carryOut_create_ready hopening h
          have hinner := hprepares.evolves.1.trans (hr hrun)
          have hstarts := Starts.create hopening
          obtain ⟨last, closing, hdeposits, hclosed⟩ := closeCreation_snd
            (ex.nextCreation o.caller) exit m'.returnValue hinner.keeps
          refine ⟨_, last, closing, henters, .created hprepares hstarts hrun hdeposits, ?_⟩
          obtain hclosed | ⟨rfl, hclosed⟩ := hclosed
          · rw [hclosed]
            exact .plain _ _ _
          · rw [hclosed]
            exact .founded last m'.returnValue hstarts

/-- An order that ends was refused, or its frame passed and was closed. -/
theorem carryOut_cases {runner : Runner} (hr : EvolvingRunner runner) {ex after : Executor}
    {order : Order} (h : order.carryOut runner ex = some after) :
    Refused ex order after ∨ ∃ entered last closing, Enters ex order entered ∧
      Passes runner ex order entered last closing ∧ Closes ex order last closing after := by
  cases order with
  | create o => exact carryOut_create hr h
  | call o =>
    obtain ⟨f, hpay⟩ | ⟨entered, last, closing, henters, hpasses, rfl⟩ := carryOut_call h
    · exact .inl (.unpaid hpay)
    · exact .inr ⟨entered, last, closing, henters, hpasses, .plain _ _ _⟩

lemma Enters.not_refused {ex entered after : Executor} {order : Order}
    (h : Enters ex order entered) : ¬Refused ex order after := by
  intro hrefused
  cases hrefused with
  | unaccepted hfault =>
    cases h with
    | create haccepted hpay =>
      rw [haccepted] at hfault
      cases hfault
  | unpaid hunpaid =>
    cases h with
    | call hpay | create haccepted hpay =>
      rw [hpay] at hunpaid
      cases hunpaid

lemma Refused.world {ex after : Executor} {order : Order} (h : Refused ex order after) :
    after.world = ex.world := by
  cases h with
  | unaccepted hfault => exact emit_world _ _ _
  | unpaid hpay => exact pay_world hpay

lemma carryOut_of_takeThen_call {runner : Runner} {context : Context} {scheme : CallScheme}
    {m taken done : Machine} {ex after : Executor} {request : Machine.CallRequest}
    {control : Control} (htake : Machine.takeCall scheme m = (.ok request, taken))
    (h : perform runner (.call scheme) context m ex = some (control, done, after)) :
    (Order.call ⟨request.target, context.transferFor scheme request.target request.value,
      request.input, request.gas.toQuantity?, true,
      context.forCall scheme request.target request.value⟩).carryOut runner ex = some after := by
  simp only [perform, takeThen, htake] at h
  split at h
  · cases h
  · next outcome left hcall =>
    have hsame := proceed_executor h
    subst hsame
    simp only [Order.carryOut, hcall, Option.map_some]

lemma carryOut_of_takeThen_create {runner : Runner} {context : Context} {m taken done : Machine}
    {ex after : Executor} {value : Word} {initCode : Bytes} {control : Control}
    (htake : Machine.takeCreation m = (.ok (value, initCode), taken))
    (h : perform runner .create context m ex = some (control, done, after)) :
    (Order.create ⟨context.address, value, initCode, none⟩).carryOut runner ex = some after := by
  simp only [perform, takeThen, htake] at h
  split at h
  · cases h
  · next outcome left hcreate =>
    have hsame := proceed_executor h
    subst hsame
    simp only [Order.carryOut, hcreate, Option.map_some]

lemma Performs.performed {runner : Runner} {c : Configuration} {task : Task} {grown : Machine}
    {ready : Executor} {p : Progress} (hperforms : Performs c task grown ready)
    (h : step runner c.context c.machine c.executor = some p) :
    ∃ control done after event, perform runner task.operation.behaviour c.context grown ready =
      some (control, done, after) ∧ Progress.executor p = after.emit .runtime event ∧
        Progress.machine p = (task.conclude control done).2 := by
  cases hperforms with
  | intro hvetted hcharge hgrow =>
    simp only [step, hvetted, hcharge, hgrow, Task.dispatch, act_instruction] at h
    split at h
    · cases h
    · next control done after hperform =>
      split at h
      · next hconclude =>
        simp only [Option.some.injEq] at h
        subst h
        exact ⟨control, done, after, _, hperform, rfl, congrArg Prod.snd hconclude.symm⟩
      · next hconclude =>
        simp only [Option.some.injEq] at h
        subst h
        exact ⟨control, done, after, _, hperform, rfl, congrArg Prod.snd hconclude.symm⟩

lemma Performs.dispatches {runner : Runner} {c : Configuration} {task : Task} {grown done : Machine}
    {ready after : Executor} {control : Control} (hperforms : Performs c task grown ready)
    (h : perform runner task.operation.behaviour c.context grown ready =
      some (control, done, after)) :
    ∃ ex, step runner c.context c.machine c.executor =
      some (match task.conclude control done with
        | (none, m) => .next m ex
        | (some exit, m) => .exit exit m ex) := by
  cases hperforms with
  | intro hvetted hcharge hgrow =>
    simp only [step, hvetted, hcharge, hgrow, Task.dispatch, act_instruction, h]
    obtain ⟨exit, m⟩ := task.conclude control done
    cases exit <;> exact ⟨_, rfl⟩

/-- A step that ends has carried out what it ordered. -/
theorem Orders.carriedOut {runner : Runner} {c : Configuration} {task : Task} {order : Order}
    {ready : Executor} {p : Progress} (horders : Orders c task order ready)
    (h : step runner c.context c.machine c.executor = some p) :
    ∃ after event, order.carryOut runner ready = some after ∧
      Progress.executor p = after.emit .runtime event := by
  cases horders with
  | call hperforms hinstruction htake =>
    obtain ⟨control, done, after, event, hperform, hp, -⟩ := hperforms.performed h
    rw [hinstruction] at hperform
    exact ⟨after, event, carryOut_of_takeThen_call htake hperform, hp⟩
  | create hperforms hinstruction htake =>
    obtain ⟨control, done, after, event, hperform, hp, -⟩ := hperforms.performed h
    rw [hinstruction] at hperform
    exact ⟨after, event, carryOut_of_takeThen_create htake hperform, hp⟩

lemma charge_world (op : Opcode) (address : Address) (stack : Stack) (memoryEnd : Option Nat)
    (ex : Executor) : (Executor.charge op address stack memoryEnd ex).2.world = ex.world := by
  obtain ⟨f, h⟩ | ⟨e, h, -⟩ := charge_cases op address stack memoryEnd ex <;> rw [h]
  rfl

lemma Performs.world {c : Configuration} {task : Task} {grown : Machine} {ready : Executor}
    (h : Performs c task grown ready) : ready.world = c.executor.world := by
  cases h with
  | intro hvetted hcharge hgrow =>
    have hworld := charge_world task.op c.context.address c.machine.stack task.memoryEnd c.executor
    rw [hcharge] at hworld
    rw [emit_world]
    exact hworld

/-- A step ends its frame without touching the world, or it performs a task. -/
theorem step_performs {runner : Runner} {c : Configuration} {p : Progress}
    (h : step runner c.context c.machine c.executor = some p) :
    ((∃ exit m ex, p = .exit exit m ex) ∧ (Progress.executor p).world = c.executor.world) ∨
      ∃ task grown ready control done after event, Performs c task grown ready ∧
        perform runner task.operation.behaviour c.context grown ready =
          some (control, done, after) ∧
        Progress.executor p = after.emit .runtime event := by
  cases hvetted : c.executor.admit c.machine with
  | error exit =>
    simp only [step, hvetted, Option.some.injEq] at h
    subst h
    exact .inl ⟨⟨_, _, _, rfl⟩, rfl⟩
  | ok task =>
    cases hcharge : Executor.charge task.op c.context.address c.machine.stack task.memoryEnd
        c.executor with
    | mk result paid =>
      have hworld := charge_world task.op c.context.address c.machine.stack task.memoryEnd
        c.executor
      rw [hcharge] at hworld
      cases result with
      | error f =>
        simp only [step, hvetted, hcharge, Option.some.injEq] at h
        subst h
        exact .inl ⟨⟨_, _, _, rfl⟩, hworld⟩
      | ok u =>
        cases hgrow : Machine.grow task.memoryEnd c.machine with
        | mk result grown =>
          cases result with
          | error f =>
            simp only [step, hvetted, hcharge, hgrow, Option.some.injEq] at h
            subst h
            exact .inl ⟨⟨_, _, _, rfl⟩, hworld⟩
          | ok u =>
            have hperforms : Performs c task grown _ := .intro hvetted hcharge hgrow
            obtain ⟨control, done, after, event, hperform, hp, -⟩ := hperforms.performed h
            exact .inr ⟨task, grown, _, control, done, after, event, hperforms, hperform, hp⟩

/-! ### What all frames of an execution share -/

lemma Orders.performs {c : Configuration} {task : Task} {order : Order} {ready : Executor}
    (h : Orders c task order ready) : ∃ grown, Performs c task grown ready := by
  cases h with
  | call hperforms | create hperforms => exact ⟨_, hperforms⟩

lemma Performs.vetted {c : Configuration} {task : Task} {grown : Machine} {ready : Executor}
    (h : Performs c task grown ready) :
    c.executor.admit c.machine = .ok task ∧ grown.stack = c.machine.stack := by
  cases h with
  | intro hvetted hcharge hgrow => exact ⟨hvetted, grow_stack hgrow⟩

lemma Performs.evolves {c : Configuration} {task : Task} {grown : Machine} {ready : Executor}
    (h : Performs c task grown ready) : Evolves c.context.address c.executor ready := by
  cases h with
  | intro hvetted hcharge hgrow =>
    have hcharged := charge_evolves c.context.address task.op c.context.address c.machine.stack
      task.memoryEnd c.executor
    rw [hcharge] at hcharged
    exact hcharged.trans (.emit _ _ _ _)

/-- What holds of an executor whatever frames make of it, and whatever frame is entered on it,
holds at every step of every frame that an execution comes to. -/
theorem Reaches.invariant {P : Executor → Prop}
    (hevolve : ∀ {self ex ex'}, Evolves self ex ex' → P ex → P ex')
    (henter : ∀ {ex} (gasLimit : Nat), P ex → P (ex.enter gasLimit false)) {c c' : Configuration}
    (h : Reaches c c') (hc : P c.executor) : P c'.executor := by
  induction h with
  | refl => exact hc
  | tail _ hleads ih =>
    cases hleads with
    | @next fuel m ex hstep => exact hevolve (step_evolves (run_evolves fuel) hstep) ih
    -- A frame below is reached through the charge, the frame around it, and its preparation.
    | nested horders hstarts =>
      obtain ⟨grown, hperforms⟩ := horders.performs
      obtain ⟨-, entered, henters, hprepares⟩ := hstarts.prepared
      obtain ⟨self, outer, gasLimit, houter, rfl⟩ := henters.around
      have hready := hevolve hperforms.evolves ih
      have hentered := henter gasLimit (hevolve houter hready)
      exact hevolve hprepares.evolves.1 hentered

end ContractMachine.Proofs
