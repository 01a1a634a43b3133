import ContractMachine.Proofs.RicherFrames
import ContractMachine.Proofs.SucceedingOrders

/-!
# More gas

Apart from the instruction that reads it, gas decides nothing in an execution in which nothing
fails: it is only ever found to be enough. By induction on the steps allowed, a frame that ends well
ends in the same way with more gas, and so does a transaction, which then costs the same.
-/

namespace ContractMachine.Proofs

/-- A frame that the first runner ends well, the second ends in the same way with more gas. -/
def Follows (runner runner' : Runner) (child : Configuration) : Prop :=
  ∀ {halt : Halt} {m : Machine} {last started' : Executor},
    runner child.context child.machine child.executor = some (.succeed halt, m, last) →
      Richer child.executor started' →
        ∃ last', runner' child.context child.machine started' = some (.succeed halt, m, last') ∧
          Richer last last'

section Runners

variable {runner runner' : Runner} {ex ex' after : Executor} {targetGas : Option Nat}

lemma Succeeds.richer {order : Order} {entered entered' last : Executor} {halt : Halt}
    {output : Bytes} (hsucceeds : Succeeds runner ex order entered halt output last)
    (h : Richer ex ex') (hentered : Richer entered entered')
    (hendows : Endows ex ex' order (order.withGas targetGas))
    (hframe : ∀ child, Starts ex order child → Follows runner runner' child) :
    ∃ last', Succeeds runner' ex' (order.withGas targetGas) entered' halt output last' ∧
      Richer last last' := by
  cases hsucceeds with
  | codeless hprepares hcode =>
    obtain ⟨last', hprepares', hlast⟩ := hprepares.richer h.toAlike hentered targetGas
    refine ⟨last', .codeless hprepares' ?_, hlast⟩
    rw [h.world]
    exact hcode
  | called hstarts hrun =>
    obtain ⟨started', hstarts', hstarted⟩ := hstarts.richer h hendows
    obtain ⟨last', hrun', hlast⟩ := hframe _ hstarts hrun hstarted
    exact ⟨last', .called hstarts' hrun', hlast⟩
  | @created o _ _ _ _ _ _ _ hstarts hrun hpay =>
    obtain ⟨started', hstarts', hstarted⟩ := hstarts.richer h hendows
    obtain ⟨inner', hrun', hinner⟩ := hframe _ hstarts hrun hstarted
    obtain ⟨last', hpay', hlast⟩ := record_richer hinner hpay
    simp only [← h.nextCreation] at hstarts' hrun'
    exact ⟨last', .created hstarts' hrun' hpay', hlast⟩

/-- The frame of the second execution succeeds too, and once both are closed the executors around
them are at the same point. -/
lemma Succeeds.closes_richer {order : Order} {entered last : Executor} {halt : Halt}
    {output : Bytes} (hlast : Succeeds runner ex order entered halt output last)
    (henters : Enters ex order entered) (hr : EvolvingRunner runner)
    (hr' : EvolvingRunner runner') (h : Richer ex ex')
    (hendows : Endows ex ex' order (order.withGas targetGas))
    (hframe : ∀ child, Starts ex order child → Follows runner runner' child) :
    ∃ entered' last', Enters ex' (order.withGas targetGas) entered' ∧
      Succeeds runner' ex' (order.withGas targetGas) entered' halt output last' ∧
      Richer (last.close .commit) (last'.close .commit) := by
  obtain ⟨entered', henters', hentered⟩ := henters.richer h hendows
  obtain ⟨last', hlast', hricher⟩ := hlast.richer h hentered hendows hframe
  exact ⟨entered', last', henters', hlast', close_richer h henters henters' hendows
    (hlast.keeps hr henters) (hlast'.keeps hr' henters') hricher⟩

/-- A call that succeeds has the same outcome with more gas. -/
lemma call_richer {o : CallOrder} {outcome : CallOutcome} (hr : EvolvingRunner runner)
    (hr' : EvolvingRunner runner') (h : Richer ex ex')
    (hendows : Endows ex ex' (.call o) (.call { o with targetGas := targetGas }))
    (hframe : ∀ child, Starts ex (.call o) child → Follows runner runner' child)
    (hcall : ex.call runner o.codeAddress o.transfer o.input o.targetGas o.withStipend o.context =
      some (outcome, after)) (hsucceeds : outcome.exit.isSuccess = true) :
    ∃ after', ex'.call runner' o.codeAddress o.transfer o.input targetGas o.withStipend
      o.context = some (outcome, after') ∧ Richer after after' := by
  obtain ⟨entered, halt, output, last, henters, hlast, rfl, rfl⟩ :=
    call_succeeds hr hcall hsucceeds
  obtain ⟨entered', last', henters', hlast', hclosed⟩ :=
    hlast.closes_richer henters hr hr' h hendows hframe
  exact ⟨_, hlast'.call hr' henters', hclosed⟩

/-- A creation that succeeds has the same outcome with more gas. -/
lemma create_richer {o : CreationOrder} {outcome : Creation} (hr : EvolvingRunner runner)
    (hr' : EvolvingRunner runner') (h : Richer ex ex')
    (hendows : Endows ex ex' (.create o) (.create { o with targetGas := targetGas }))
    (hframe : ∀ child, Starts ex (.create o) child → Follows runner runner' child)
    (hcreate : ex.create runner o.caller o.value o.initCode o.targetGas = some (outcome, after))
    (hsucceeds : outcome.exit.isSuccess = true) :
    ∃ after', ex'.create runner' o.caller o.value o.initCode targetGas = some (outcome, after') ∧
      Richer after after' := by
  obtain ⟨entered, halt, output, last, henters, hlast, rfl, rfl⟩ :=
    create_succeeds hr hcreate hsucceeds
  obtain ⟨entered', last', henters', hlast', hclosed⟩ :=
    hlast.closes_richer henters hr hr' h hendows hframe
  have hcreated := hlast'.create hr' henters'
  simp only [h.nextCreation] at hcreated
  exact ⟨_, hcreated, hclosed.onWorld _⟩

end Runners

/-- What carrying the order out gives, it gives with more gas too. -/
def Order.Repeats (runner : Runner) (ex ex' : Executor) : Order → Prop
  | call o => ∀ (outcome : CallOutcome) (after : Executor),
    ex.call runner o.codeAddress o.transfer o.input o.targetGas o.withStipend o.context =
        some (outcome, after) →
      ∃ after', ex'.call runner o.codeAddress o.transfer o.input o.targetGas o.withStipend
        o.context = some (outcome, after') ∧ Richer after after'
  | create o => ∀ (outcome : Creation) (after : Executor),
    ex.create runner o.caller o.value o.initCode o.targetGas = some (outcome, after) →
      ∃ after', ex'.create runner o.caller o.value o.initCode o.targetGas =
        some (outcome, after') ∧ Richer after after'

/-- A call leaves at least the gas that its operand asks for. -/
lemma Performs.forwards {c : Configuration} {task : Task} {grown : Machine} {ready : Executor}
    {scheme : CallScheme} (hs : IsStandard c.executor.instructions)
    (h : Performs c task grown ready) (hinstruction : task.operation.behaviour = .call scheme) :
    ∃ operand, grown.stack.peek 0 = .ok operand ∧ operand.toNat ≤ ready.gas := by
  have hop := (task_of_standard hs h.vetted.1).2.1
  rw [hinstruction] at hop
  have hstatic : task.op.staticCost? = none := by
    simp [Opcode.staticCost?, hop, Instruction.staticCost?]
  obtain ⟨price, l, l', hprice, hl, hmeter, hbooked⟩ := h.booked hstatic
  cases hbooked with
  | @priced _ _ b hbill hle hforward =>
    obtain ⟨operand, hoperand, hforwarded⟩ := price_forwarded hop hprice (bill_parts hbill).1
    rw [← h.vetted.2] at hoperand
    refine ⟨operand, hoperand, ?_⟩
    have hmemory := (bill_parts hbill).2
    have hgas := gas_of_ledger hl
    have hleft : ready.gas = c.executor.frame.meter.limit - (l.usedGas + b.cost) -
        b.memoryGas := by
      simp only [Executor.gas, hmeter, Meter.gas]
    omega

lemma endows_of_call {ex ex' : Executor} {o : CallOrder} (hrules : ex'.rules = ex.rules)
    (hgas : (Order.call o).gas ex' = (Order.call o).gas ex) :
    Endows ex ex' (.call o) (.call o) := by
  refine .same hgas ?_
  simp only [Order.gasLimit, Executor.callGasLimit, hrules, hgas]

/-- A nested call hands over its gas operand, and a creation all that is left. -/
lemma Orders.endows {c : Configuration} {task : Task} {order : Order} {ready ready' : Executor}
    (hs : IsStandard c.executor.instructions) (horders : Orders c task order ready)
    (h : Richer ready ready') : Endows ready ready' order order := by
  have hmore := h.gas_le
  have hfits : ready'.gas ≤ Quantity.max := h.meter.gas_fits
  cases horders with
  | @call grown taken _ scheme request hperforms hinstruction htake =>
    obtain ⟨operand, hoperand, hle⟩ := hperforms.forwards hs hinstruction
    have hgas := (takeCall_operands htake).1
    rw [hoperand, Except.ok.injEq] at hgas
    subst hgas
    refine endows_of_call h.rules ?_
    rw [gas_of_operand rfl (Nat.le_trans hle hmore) hfits,
      gas_of_operand rfl hle (Nat.le_trans hmore hfits)]
  | create hperforms hinstruction htake =>
    refine .whole ?_ rfl rfl
    simp only [Order.gas, Option.getD_none, Nat.min_self]
    exact hmore

lemma Orders.repeats {runner : Runner} (hr : EvolvingRunner runner) {c : Configuration}
    {task : Task} {order : Order} {ready ready' : Executor}
    (hs : IsStandard c.executor.instructions) (horders : Orders c task order ready)
    (h : Richer ready ready')
    (hsucceeds : ∀ exit, order.exit? runner ready = some exit → exit.isSuccess = true)
    (hframe : ∀ child, Starts ready order child → Follows runner runner child) :
    order.Repeats runner ready ready' := by
  have hendows := horders.endows hs h
  cases order with
  | call o =>
    intro outcome after hcall
    have hsuccess := hsucceeds outcome.exit (by rw [Order.exit?, hcall, Option.map_some])
    exact call_richer hr hr h hendows hframe hcall hsuccess
  | create o =>
    intro outcome after hcreate
    have hsuccess := hsucceeds outcome.exit (by rw [Order.exit?, hcreate, Option.map_some])
    exact create_richer hr hr h hendows hframe hcreate hsuccess

lemma proceed_richer {x : Action Machine Unit} {m done : Machine} {ex ex' after : Executor}
    {control : Control} (h : Richer ex ex')
    (hproceed : some (proceed x m ex) = some (control, done, after)) :
    ∃ after', some (proceed x m ex') = some (control, done, after') ∧ Richer after after' := by
  have hafter := proceed_executor hproceed
  subst hafter
  refine ⟨ex', ?_, h⟩
  unfold proceed at hproceed ⊢
  cases hx : x m with
  | mk result taken =>
    rw [hx] at hproceed
    cases result <;> cases hproceed <;> rfl

lemma takeThen_richer {α : Type} {x : Action Machine α} {m done : Machine}
    {ex ex' after : Executor} {control : Control}
    {k : α → Machine → Executor → Option (Control × Machine × Executor)}
    (hcontrol : ∀ f, control ≠ .fault f)
    (hk : ∀ a taken, x m = (.ok a, taken) → k a taken ex = some (control, done, after) →
      ∃ after', k a taken ex' = some (control, done, after') ∧ Richer after after')
    (htake : takeThen x m ex k = some (control, done, after)) :
    ∃ after', takeThen x m ex' k = some (control, done, after') ∧ Richer after after' := by
  obtain ⟨f, -, hfault, -⟩ | ⟨a, taken, hx, hrest⟩ := takeThen_cases htake
  · exact absurd hfault (hcontrol f)
  · simp only [takeThen, hx]
    exact hk a taken hx hrest

lemma performLoad_richer {context : Context} {m done : Machine} {ex ex' after : Executor}
    {control : Control} (h : Richer ex ex') (hcontrol : ∀ f, control ≠ .fault f)
    (hload : performLoad context m ex = (control, done, after)) :
    ∃ after', performLoad context m ex' = (control, done, after') ∧ Richer after after' := by
  unfold performLoad at hload ⊢
  rw [h.world]
  split at hload
  · cases hload
    exact absurd rfl (hcontrol _)
  · simp only at hload ⊢
    split at hload
    · cases hload
      exact absurd rfl (hcontrol _)
    · cases hload
      exact ⟨_, rfl, h.emit _ _ _⟩

/-- Reading the gas apart, an instruction that does not fail does the same with more gas. -/
lemma Performs.richer {runner : Runner} {c : Configuration} {task : Task} {grown done : Machine}
    {ready ready' after : Executor} {control : Control} (hperforms : Performs c task grown ready)
    (h : Richer ready ready') (hgasless : task.operation.behaviour ≠ .reading .gas)
    (horders : ∀ order, Orders c task order ready → order.Repeats runner ready ready')
    (hperform : perform runner task.operation.behaviour c.context grown ready =
      some (control, done, after)) (hcontrol : ∀ f, control ≠ .fault f) :
    ∃ after', perform runner task.operation.behaviour c.context grown ready' =
      some (control, done, after') ∧ Richer after after' := by
  generalize hi : task.operation.behaviour = i at hgasless hperform ⊢
  cases i with
  | call scheme =>
    simp only [perform] at hperform ⊢
    refine takeThen_richer hcontrol (fun request taken htake hk => ?_) hperform
    have hrepeats := horders _ (.call hperforms hi htake)
    split at hk
    · cases hk
    · next outcome closed hcall =>
      obtain ⟨closed', hcall', hclosed⟩ := hrepeats outcome closed hcall
      simp only [hcall']
      exact proceed_richer hclosed hk
  | create =>
    simp only [perform] at hperform ⊢
    refine takeThen_richer hcontrol ?_ hperform
    rintro ⟨value, initCode⟩ taken htake hk
    have hrepeats := horders _ (.create hperforms hi htake)
    simp only at hk ⊢
    split at hk
    · cases hk
    · next outcome closed hcreate =>
      obtain ⟨closed', hcreate', hclosed⟩ := hrepeats outcome closed hcreate
      simp only [hcreate']
      exact proceed_richer hclosed hk
  | sstore =>
    simp only [perform] at hperform ⊢
    refine takeThen_richer hcontrol ?_ hperform
    rintro ⟨slot, value⟩ taken - hk
    cases hk
    exact ⟨_, rfl, (h.emit _ _ _).onWorld _⟩
  | log topics =>
    simp only [perform] at hperform ⊢
    refine takeThen_richer hcontrol ?_ hperform
    rintro ⟨items, data⟩ taken - hk
    cases hk
    exact ⟨_, rfl, h.onWorld _⟩
  | ret =>
    simp only [perform] at hperform ⊢
    refine takeThen_richer hcontrol (fun u taken _ hk => ?_) hperform
    cases hk
    exact ⟨_, rfl, h⟩
  | selfDestruct =>
    simp only [perform] at hperform ⊢
    refine takeThen_richer hcontrol (fun target taken _ hk => ?_) hperform
    split at hk
    · next marked hmark =>
      cases hk
      obtain ⟨marked', hmark', hmarked⟩ := markDestroyed_richer h hmark
      simp only [hmark']
      exact ⟨_, rfl, hmarked⟩
    · cases hk
      exact absurd rfl (hcontrol _)
  | sload =>
    obtain ⟨after', hload, hafter⟩ := performLoad_richer h hcontrol (Option.some.inj hperform)
    exact ⟨after', congrArg some hload, hafter⟩
  | invalid =>
    unfold perform at hperform ⊢
    cases hop : grown.opcode? <;> simp only [hop] at hperform ⊢ <;> cases hperform <;>
      exact ⟨_, rfl, h⟩
  | reading value =>
    have hvalue : value.value c.context grown ready' = value.value c.context grown ready := by
      cases value with
      | gas => exact absurd rfl hgasless
      | _ => simp only [Reading.value, h.origin, h.environment]
    simp only [perform, hvalue] at hperform ⊢
    exact proceed_richer h hperform
  | stop | jumpDest =>
    cases hperform
    exact ⟨_, rfl, h⟩
  | _ =>
    simp only [perform, h.world, h.environment] at hperform ⊢
    exact proceed_richer h hperform

/-- Both steps leave the same machine, the second with more gas. -/
inductive RicherProgress : Progress → Progress → Prop
  | next {m : Machine} {ex ex' : Executor} (h : Richer ex ex') :
    RicherProgress (.next m ex) (.next m ex')
  | exit {exit : Exit} {m : Machine} {ex ex' : Executor} (h : Richer ex ex') :
    RicherProgress (.exit exit m ex) (.exit exit m ex')

lemma dispatch_richer {runner : Runner} {c : Configuration} {task : Task} {grown : Machine}
    {paid paid' : Executor} {p : Progress} (hpaid : Richer paid paid')
    (hperforms : Performs c task grown (paid.emit .runtime
      (.step c.context.address task.op grown.position grown.stack grown.memory)))
    (hgasless : task.operation.behaviour ≠ .reading .gas)
    (horders : ∀ order ready ready', Orders c task order ready → Richer ready ready' →
      order.Repeats runner ready ready')
    (hdispatch : task.dispatch runner c.context grown paid = some p)
    (hp : ∀ f m ex, p ≠ .exit (.fault f) m ex) :
    ∃ p', task.dispatch runner c.context grown paid' = some p' ∧ RicherProgress p p' := by
  have hready := hpaid.emit .runtime
    (.step c.context.address task.op grown.position grown.stack grown.memory)
    (.step c.context.address task.op grown.position grown.stack grown.memory)
  simp only [Task.dispatch, act_instruction] at hdispatch ⊢
  generalize paid.emit .runtime _ = ready at hperforms hready hdispatch
  generalize paid'.emit .runtime _ = ready' at hready ⊢
  split at hdispatch
  · cases hdispatch
  · next control done after hperform =>
    have hcontrol : ∀ f, control ≠ .fault f := by
      rintro f rfl
      cases hdispatch
      exact absurd rfl (hp _ _ _)
    obtain ⟨after', hperform', hafter⟩ := hperforms.richer hready hgasless
      (fun order h => horders order ready ready' h hready) hperform hcontrol
    simp only [hperform']
    cases hconclude : task.conclude control done with
    | mk exit last =>
      rw [hconclude] at hdispatch
      cases exit with
      | none =>
        cases hdispatch
        exact ⟨_, rfl, .next (hafter.emit _ _ _)⟩
      | some exit =>
        cases hdispatch
        exact ⟨_, rfl, .exit (hafter.emit _ _ _)⟩

/-- A step that does not fail does the same with more gas. -/
theorem step_richer {runner : Runner} {c : Configuration} {ex' : Executor} {p : Progress}
    (h : Richer c.executor ex')
    (hgasless : ∀ task grown ready, Performs c task grown ready →
      task.operation.behaviour ≠ .reading .gas)
    (horders : ∀ task order ready ready', Orders c task order ready → Richer ready ready' →
      order.Repeats runner ready ready')
    (hstep : step runner c.context c.machine c.executor = some p)
    (hp : ∀ f m ex, p ≠ .exit (.fault f) m ex) :
    ∃ p', step runner c.context c.machine ex' = some p' ∧ RicherProgress p p' := by
  unfold step at hstep ⊢
  rw [h.admits]
  cases hvetted : c.executor.admit c.machine with
  | error exit =>
    simp only [hvetted, Option.some.injEq] at hstep ⊢
    subst hstep
    exact ⟨_, rfl, .exit h⟩
  | ok task =>
    simp only [hvetted] at hstep ⊢
    split at hstep
    · cases hstep
      exact absurd rfl (hp _ _ _)
    · next paid hcharge =>
      obtain ⟨paid', hcharge', hpaid⟩ := charge_richer h hcharge
      simp only [hcharge']
      split at hstep
      · cases hstep
        exact absurd rfl (hp _ _ _)
      · next grown hgrow =>
        have hperforms : Performs c task grown _ := .intro hvetted hcharge hgrow
        exact dispatch_richer hpaid hperforms (hgasless task grown _ hperforms) (horders task)
          hstep hp

/-- An execution in which no step reads the gas that is left, and every nested call and creation
succeeds. -/
structure Smooth (c : Configuration) : Prop where
  gasless : ∀ c' task grown ready, Reaches c c' → Performs c' task grown ready →
    task.operation.behaviour ≠ .reading .gas
  succeeds : ∀ c' task order ready fuel exit, Reaches c c' → Orders c' task order ready →
    order.exit? (run fuel) ready = some exit → exit.isSuccess = true

lemma Smooth.leads {c d : Configuration} (hc : Smooth c) (h : Leads c d) : Smooth d where
  gasless c' task grown ready hreaches := hc.gasless c' task grown ready (.head h hreaches)
  succeeds c' task order ready fuel exit hreaches :=
    hc.succeeds c' task order ready fuel exit (.head h hreaches)

lemma Leads.instructions {c d : Configuration} (h : Leads c d) :
    d.executor.instructions = c.executor.instructions := by
  cases h with
  | next hstep => exact (step_evolves (run_evolves _) hstep).keeps.instructions
  | nested horders hstarts =>
    obtain ⟨grown, hperforms⟩ := horders.performs
    exact hstarts.surroundings.1.trans hperforms.evolves.keeps.instructions

/-- A frame that ends well ends in the same way with more gas. -/
theorem run_follows (fuel : Nat) {c : Configuration} (hs : IsStandard c.executor.instructions)
    (hc : Smooth c) : Follows (run fuel) (run fuel) c := by
  induction fuel generalizing c with
  | zero =>
    intro halt m last started' hrun
    cases hrun
  | succ fuel ih =>
    intro halt m last started' hrun hricher
    -- What the step orders runs with one step less, and so do the steps that follow.
    have hbelow {d : Configuration} (h : Leads c d) : Follows (run fuel) (run fuel) d :=
      ih (h.instructions ▸ hs) (hc.leads h)
    have hstep {p : Progress} (h : step (run fuel) c.context c.machine c.executor = some p)
        (hp : ∀ f m ex, p ≠ .exit (.fault f) m ex) := step_richer hricher
      (fun task grown ready => hc.gasless c task grown ready .refl)
      (fun task order ready ready' horders hready => horders.repeats (run_evolves fuel) hs hready
        (fun exit => hc.succeeds c task order ready fuel exit .refl horders)
        (fun child hstarts => hbelow (.nested horders hstarts))) h hp
    obtain hlast | ⟨next, after, hnext, hrest⟩ := run_succ hrun
    · obtain ⟨p', hstep', hp⟩ := hstep hlast (by simp)
      cases hp with
      | exit hlast' => exact ⟨_, by simp only [run, hstep'], hlast'⟩
    · obtain ⟨p', hstep', hp⟩ := hstep hnext (by simp)
      cases hp with
      | next hafter =>
        obtain ⟨last', hrun', hlast'⟩ := hbelow (.next hnext) hrest hafter
        exact ⟨last', by simp only [run, hstep', hrun'], hlast'⟩

/-- More gas allows more steps, which change nothing. -/
lemma runs_follow {c : Configuration} (hs : IsStandard c.executor.instructions) (hc : Smooth c) :
    Follows (runs Executor.stepAllowance) (runs Executor.stepAllowance) c := by
  intro halt m last started' hrun hricher
  obtain ⟨last', hrun', hlast⟩ := run_follows c.executor.stepAllowance hs hc hrun hricher
  have hle : c.executor.stepAllowance ≤ started'.stepAllowance :=
    Nat.add_le_add_right (Nat.add_le_add_right hricher.gas_le 1) Executor.freeSteps
  exact ⟨last', run_covers hle hrun', hlast⟩

lemma Richer.usedGas? {ex ex' : Executor} (h : Richer ex ex') : ex'.usedGas? = ex.usedGas? := by
  obtain ⟨htotal, hrefunded⟩ := h.meter.totals
  simp only [Executor.usedGas?, htotal, hrefunded, h.rules]

section Transactions

variable {ex : Executor} {caller address : Address} {value : Word} {input : Bytes}
  {gasLimit more : Nat}

lemma Transaction.start_richer (ex : Executor) (hle : gasLimit ≤ more)
    (hquantity : more < Quantity.limit) :
    Richer ((Transaction.call caller address value input gasLimit).start ex)
      ((Transaction.call caller address value input more).start ex) := by
  have hreset : Richer (ex.reset caller gasLimit) (ex.reset caller more) :=
    ⟨⟨rfl, rfl, rfl, rfl, rfl, rfl, rfl⟩, roomier_new hle (Nat.le_of_lt_succ hquantity)⟩
  exact hreset.emit _ _ _

/-- The frame of a transaction gets all that is handed over, and no stipend. -/
lemma Transaction.endows {ex ex' : Executor} (h : Richer ex ex') (hle : gasLimit ≤ more) :
    Endows ex ex' (Transaction.call caller address value input gasLimit).order
      (Transaction.call caller address value input more).order := by
  refine .whole ?_ rfl rfl
  have hmore := h.gas_le
  show min gasLimit ex.gas ≤ min more ex'.gas
  omega

/-- More gas never changes a success. If a call that is run as a transaction succeeds, reads the
gas that is left in no step, and has no nested call or creation that fails, then with more gas it
returns the same, leaves the same world and logs, and uses the same gas. -/
theorem more_gas_changes_nothing (hs : IsStandard ex.instructions) (hle : gasLimit ≤ more)
    (hquantity : more < Quantity.limit) {outcome : CallOutcome} {after : Executor}
    (hends : ex.transactCall caller address value input gasLimit = some (outcome, after))
    (hsucceeds : outcome.exit.isSuccess = true)
    (hsmooth : ∀ c, Starts ((Transaction.call caller address value input gasLimit).start ex)
      (Transaction.call caller address value input gasLimit).order c → Smooth c) :
    ∃ after', ex.transactCall caller address value input more = some (outcome, after') ∧
      after'.world = after.world ∧
      after'.frame.meter.totalUsedGas = after.frame.meter.totalUsedGas ∧
      after'.frame.meter.refundedGas = after.frame.meter.refundedGas ∧
      after'.usedGas? = after.usedGas? := by
  simp only [Executor.transactCall] at hends ⊢
  split at hends
  · cases hends
  · next outcome' carried hnested =>
    cases hends
    have hstart : Richer _ ((Transaction.call caller address value input more).start ex) :=
      Transaction.start_richer ex hle hquantity
    have hframe (child : Configuration)
        (hstarts : Starts ((Transaction.call caller address value input gasLimit).start ex)
          (Transaction.call caller address value input gasLimit).order child) :
        Follows (runs Executor.stepAllowance) (runs Executor.stepAllowance) child := by
      refine runs_follow ?_ (hsmooth child hstarts)
      rw [hstarts.surroundings.1, (Transaction.start_frame ex _).2.2.1]
      exact hs
    obtain ⟨carried', hnested', hcarried⟩ := call_richer (runs_evolving _) (runs_evolving _) hstart
      (Transaction.endows hstart hle) hframe hnested hsucceeds
    have hafter := hcarried.emit .executor (.exit outcome.exit outcome.output)
      (.exit outcome.exit outcome.output)
    obtain ⟨htotal, hrefunded⟩ := hafter.meter.totals
    have hcalled : Executor.nestedCall ((ex.reset caller more).emit .executor
        (.transactCall caller address value input more)) address (some ⟨caller, address, value⟩)
          input (some more) false ⟨address, caller, value⟩ = some (outcome, carried') := hnested'
    rw [hcalled]
    exact ⟨_, rfl, hafter.world, htotal, hrefunded, hafter.usedGas?⟩

end Transactions

/-- Whether the step leaves the gas unread, and what it orders succeeds in so many steps. -/
def smoothStep? (fuel : Nat) (c : Configuration) : Bool :=
  (c.performance?.all fun (task, _, _) => task.operation.behaviour != .reading .gas) &&
    c.order?.all fun (order, ready) => (order.exit? (run fuel) ready).any Exit.isSuccess

/-- Whether the frame of the order ends in so many steps, all of them smooth. -/
def smoothOrder? (fuel : Nat) (ex : Executor) (order : Order) : Bool :=
  (order.start? ex).all fun c => (run fuel c.context c.machine c.executor).isSome &&
    (steps fuel c).all (smoothStep? fuel)

lemma smooth_of_check {fuel : Nat} {ex : Executor} {order : Order}
    (h : smoothOrder? fuel ex order = true) (c : Configuration) (hstarts : Starts ex order c) :
    Smooth c := by
  rw [smoothOrder?, start?_iff.mpr hstarts, Option.all_some, Bool.and_eq_true] at h
  obtain ⟨result, hrun⟩ := Option.isSome_iff_exists.mp h.1
  have hstep {c' : Configuration} (hreaches : Reaches c c') : smoothStep? fuel c' = true :=
    List.all_eq_true.mp h.2 c' (hreaches.mem_steps hrun)
  constructor
  · intro c' task grown ready hreaches hperforms
    have hsmooth := hstep hreaches
    rw [smoothStep?, performance?_iff.mpr hperforms] at hsmooth
    simp only [Option.all_some, Bool.and_eq_true, bne_iff_ne] at hsmooth
    exact hsmooth.1
  · intro c' task order ready fuel' exit hreaches horders hexit
    have hsmooth := hstep hreaches
    rw [smoothStep?, order?_iff.mpr ⟨task, horders⟩] at hsmooth
    simp only [Option.all_some, Bool.and_eq_true, Option.any_eq_true] at hsmooth
    obtain ⟨exit', hexit', hsuccess⟩ := hsmooth.2
    have hleft := exit?_covers (run_covers (Nat.le_max_left fuel fuel')) hexit'
    have hright := exit?_covers (run_covers (Nat.le_max_right fuel fuel')) hexit
    rw [hleft, Option.some.injEq] at hright
    exact hright ▸ hsuccess

/-- An account whose code creates a contract of one byte, keeps its address, and sends value to an
account that writes to a slot. -/
def spendingExecutor : Executor :=
  let spending : Bytes :=
    #[0x64, 0x60, 1, 0x60, 0, 0xf3, 0x60, 0, 0x52, 0x60, 5, 0x60, 27, 0x60, 0, 0xf0, 0x60, 0, 0x55,
      0x60, 0, 0x60, 0, 0x60, 0, 0x60, 0, 0x60, 1, 0x60, 0xc, 0x61, 0x75, 0x30, 0xf1]
  let accounts : Std.ExtTreeMap Address Account :=
    (Std.ExtTreeMap.empty.insert 0xb ⟨0, 5, ∅, spending⟩).insert 0xc
      ⟨0, 0, ∅, #[0x60, 1, 0x60, 0, 0x55]⟩
  .new (.ofAccounts accounts) .homestead .zero

theorem more_gas_changes_nothing_spendingExecutor :
    ∃ outcome after after', outcome.exit = .succeed .stopped ∧ after.usedGas? = some 79000 ∧
      spendingExecutor.transactCall 0xa 0xb 0 #[] 200000 = some (outcome, after) ∧
      spendingExecutor.transactCall 0xa 0xb 0 #[] 300000 = some (outcome, after') ∧
      after'.world = after.world ∧
      after'.frame.meter.totalUsedGas = after.frame.meter.totalUsedGas ∧
      after'.frame.meter.refundedGas = after.frame.meter.refundedGas ∧
      after'.usedGas? = after.usedGas? := by
  have hinstructions : spendingExecutor.instructions = .homestead := rfl
  have hsmooth : smoothOrder? 40 ((Transaction.call 0xa 0xb 0 #[] 200000).start spendingExecutor)
      (Transaction.call 0xa 0xb 0 #[] 200000).order = true := by decide +kernel
  have hsucceeds : (spendingExecutor.transactCall 0xa 0xb 0 #[] 200000).map
      (fun result => (result.1.exit, result.2.usedGas?)) =
        some (.succeed .stopped, some 79000) := by
    decide +kernel
  obtain ⟨⟨outcome, after⟩, hends, hresult⟩ := Option.map_eq_some_iff.mp hsucceeds
  obtain ⟨hexit, hused⟩ := Prod.mk.inj hresult
  obtain ⟨after', hends', hsame⟩ := more_gas_changes_nothing (.inr hinstructions)
    (by decide : 200000 ≤ 300000) (by decide) hends (by rw [hexit]; rfl) (smooth_of_check hsmooth)
  exact ⟨outcome, after, after', hexit, hused, hends, hends', hsame⟩

end ContractMachine.Proofs
