import ContractMachine.Proofs.MessageRejection
import ContractMachine.Proofs.NestedGas

/-!
# The steps allowed do not matter

A run that ends comes to the same end whatever more steps it is allowed. With the gas constants of
a fork a frame ends within as many steps as it has gas, so that runs, calls, creations and messages
have a result of their own, which no allowance above the gas has a part in.
-/

namespace ContractMachine.Proofs

/-- Every frame that the first runner ends, the second ends in the same way. -/
def Covers (runner' runner : Runner) : Prop :=
  ∀ {context : Context} {m : Machine} {ex : Executor} {result : Exit × Machine × Executor},
    runner context m ex = some result → runner' context m ex = some result

lemma call_covers {runner runner' : Runner} (hr : Covers runner' runner) {ex : Executor}
    {codeAddress : Address} {t : Option Transfer} {input : Bytes} {targetGas : Option Nat}
    {withStipend : Bool} {context : Context} {result : CallOutcome × Executor}
    (h : ex.call runner codeAddress t input targetGas withStipend context = some result) :
    ex.call runner' codeAddress t input targetGas withStipend context = some result := by
  unfold Executor.call at h ⊢
  cases hopening : ex.openCall codeAddress t input targetGas withStipend context with
  | «over» outcome after =>
    rw [hopening] at h
    exact h
  | ready m started =>
    simp only [hopening] at h ⊢
    cases hrun : runner context m started with
    | none => simp [hrun] at h
    | some ended =>
      simp only [hrun] at h
      simp only [hr hrun]
      exact h

lemma create_covers {runner runner' : Runner} (hr : Covers runner' runner) {ex : Executor}
    {caller : Address} {value : Word} {initCode : Bytes} {targetGas : Option Nat}
    {result : Creation × Executor}
    (h : ex.create runner caller value initCode targetGas = some result) :
    ex.create runner' caller value initCode targetGas = some result := by
  unfold Executor.create at h ⊢
  simp only at h ⊢
  generalize ex.nextCreation caller = address at h ⊢
  cases hopening : ex.openCreation caller address value initCode targetGas with
  | «over» outcome after =>
    rw [hopening] at h
    exact h
  | ready m started =>
    simp only [hopening] at h ⊢
    cases hrun : runner ⟨address, caller, value⟩ m started with
    | none => simp [hrun] at h
    | some ended =>
      simp only [hrun] at h
      simp only [hr hrun]
      exact h

lemma takeThen_covers {α : Type} {x : Action Machine α} {m : Machine} {ex : Executor}
    {k k' : α → Machine → Executor → Option (Control × Machine × Executor)}
    {result : Control × Machine × Executor}
    (hk : ∀ a taken, k a taken ex = some result → k' a taken ex = some result)
    (h : takeThen x m ex k = some result) : takeThen x m ex k' = some result := by
  unfold takeThen at h ⊢
  cases hx : x m with
  | mk taken m' =>
    cases taken with
    | error f =>
      simp only [hx] at h ⊢
      exact h
    | ok a =>
      simp only [hx] at h ⊢
      exact hk a m' h

lemma perform_covers {runner runner' : Runner} (hr : Covers runner' runner) {i : Instruction}
    {context : Context} {m : Machine} {ex : Executor} {result : Control × Machine × Executor}
    (h : perform runner i context m ex = some result) :
    perform runner' i context m ex = some result := by
  cases i with
  | create =>
    simp only [perform] at h ⊢
    refine takeThen_covers ?_ h
    rintro ⟨value, initCode⟩ taken hk
    simp only at hk ⊢
    cases hcreate : ex.create runner context.address value initCode none with
    | none => simp [hcreate] at hk
    | some ended =>
      simp only [hcreate] at hk
      simp only [create_covers hr hcreate]
      exact hk
  | call scheme =>
    simp only [perform] at h ⊢
    refine takeThen_covers ?_ h
    intro request taken hk
    cases hcall : ex.call runner request.target
        (context.transferFor scheme request.target request.value) request.input
        request.gas.toQuantity? true (context.forCall scheme request.target request.value) with
    | none => simp [hcall] at hk
    | some ended =>
      simp only [hcall] at hk
      simp only [call_covers hr hcall]
      exact hk
  | _ => exact h

lemma step_covers {runner runner' : Runner} (hr : Covers runner' runner) {context : Context}
    {m : Machine} {ex : Executor} {p : Progress} (h : step runner context m ex = some p) :
    step runner' context m ex = some p := by
  unfold step at h ⊢
  cases hvetted : ex.admit m with
  | error exit =>
    simp only [hvetted] at h ⊢
    exact h
  | ok task =>
    simp only [hvetted] at h ⊢
    cases hcharge : Executor.charge task.op context.address m.stack task.memoryEnd ex with
    | mk result paid =>
      cases result with
      | error f =>
        simp only [hcharge] at h ⊢
        exact h
      | ok u =>
        simp only [hcharge] at h ⊢
        cases hgrow : Machine.grow task.memoryEnd m with
        | mk result grown =>
          cases result with
          | error f =>
            simp only [hgrow] at h ⊢
            exact h
          | ok u =>
            simp only [hgrow, Task.dispatch, act_instruction] at h ⊢
            generalize paid.emit .runtime (.step context.address task.op grown.position
              grown.stack grown.memory) = ready at h ⊢
            cases hperform : perform runner task.operation.behaviour context grown ready with
            | none => simp [hperform] at h
            | some done =>
              simp only [hperform] at h
              simp only [perform_covers hr hperform]
              exact h

/-- More steps end a run in the same way. -/
theorem run_covers {fuel fuel' : Nat} (hle : fuel ≤ fuel') : Covers (run fuel') (run fuel) := by
  induction fuel generalizing fuel' with
  | zero =>
    intro context m ex result h
    cases h
  | succ fuel ih =>
    intro context m ex result h
    obtain ⟨more, rfl⟩ : ∃ more, fuel' = more + 1 := ⟨fuel' - 1, by omega⟩
    have hcovers : Covers (run more) (run fuel) := ih (by omega)
    simp only [run] at h ⊢
    -- Both the nested frames of the step and the steps that follow it have one step less.
    cases hstep : step (run fuel) context m ex with
    | none => simp [hstep] at h
    | some p =>
      simp only [step_covers hcovers hstep]
      simp only [hstep] at h
      cases p with
      | next next after => exact hcovers h
      | exit exit last after => exact h

lemma Performs.toll {c : Configuration} {task : Task} {grown : Machine} {ready : Executor}
    (hex : Ordinary c.executor) (h : Performs c task grown ready) :
    ready.gas + toll c.executor.rules c.machine.stack task.operation.behaviour ≤
      c.executor.gas := by
  cases h with
  | intro hvetted hcharge hgrow =>
    rw [emit_gas]
    exact charge_toll hex.metered (task_of_standard hex.standard hvetted).2.1 hcharge

/-- A frame that a step enters has a lower limit than the gas before the step. -/
theorem Orders.limit_lt {c : Configuration} {task : Task} {order : Order}
    {ready entered : Executor} (hex : Ordinary c.executor) (h : Orders c task order ready)
    (henters : Enters ready order entered) :
    entered.frame.meter.limit < c.executor.gas := by
  rw [henters.limit]
  cases h with
  | @call grown taken _ scheme request hperforms hinstruction htake =>
    have htoll := hperforms.toll hex
    have hrules : ready.rules = c.executor.rules := hperforms.evolves.keeps.rules
    have hsends := sendsValue_eq c.context htake
    rw [hperforms.vetted.2] at hsends
    have hbonus := bonus_lt_toll hex.metered c.machine.stack (i := .call scheme) rfl
    rw [hinstruction] at htoll
    have hlimit := callGasLimit_le ready (min (request.gas.toQuantity?.getD ready.gas) ready.gas)
      true (c.context.transferFor scheme request.target request.value)
    rw [hsends, hrules] at hlimit
    have hstipend : (if (true && (sentValue scheme c.machine.stack != 0)) = true then
        c.executor.rules.callStipend else 0) =
          bonus c.executor.rules c.machine.stack (.call scheme) := by
      simp [bonus]
    rw [hstipend] at hlimit
    refine Nat.lt_of_le_of_lt hlimit ?_
    omega
  | @create grown taken _ value initCode hperforms hinstruction htake =>
    have htoll := hperforms.toll hex
    have hbonus := bonus_lt_toll hex.metered c.machine.stack (i := .create) rfl
    rw [hinstruction] at htoll
    have hlimit : (Order.create ⟨c.context.address, value, initCode, none⟩).gasLimit ready ≤
        ready.gas := Nat.min_le_left _ _
    omega

lemma endsBelow_run (bound : Nat) : EndsBelow (run bound) bound :=
  fun context m _ hex hgas => run_ends context m hex hgas

/-- With the gas constants of a fork every step that goes on leaves less gas, every frame that is
entered has less gas than the one around it, and everything ends: steps, runs, calls and creations
have a result which they give under every allowance above their gas, every message is executed, and
it is applied where a quotient limits refunds. -/
theorem executions_end {ex : Executor} (hs : IsStandard ex.instructions)
    (hr : ForkPriced ex.rules) :
    (∀ fuel context m next after,
      step (run fuel) context m ex = some (.next next after) → after.gas < ex.gas) ∧
    (∀ context m task order ready entered, Orders ⟨context, m, ex⟩ task order ready →
      Enters ready order entered → entered.frame.meter.limit < ex.gas) ∧
    (∀ context m, ∃ p, ∀ fuel, ex.gas ≤ fuel → step (run fuel) context m ex = some p) ∧
    (∀ context m, ∃ result, ∀ fuel, ex.gas < fuel → run fuel context m ex = some result) ∧
    (∀ codeAddress t input targetGas withStipend context, ∃ result, ∀ fuel,
      ex.gas + ex.rules.callStipend < fuel →
        ex.call (run fuel) codeAddress t input targetGas withStipend context = some result) ∧
    (∀ caller value initCode targetGas, ∃ result, ∀ fuel, ex.gas < fuel →
      ex.create (run fuel) caller value initCode targetGas = some result) ∧
    (∀ m, ∃ outcome after, ex.executeMessage m = some (outcome, after)) ∧
    (ex.rules.maxRefundQuotient ≠ 0 →
      ∀ m pool, ∃ applied, ex.applyMessage m pool = some applied) := by
  have hex : Ordinary ex := ⟨hs, hr.metered⟩
  refine ⟨?_, ?_, ?_, ?_, ?_, ?_, fun m => executeMessage_ends hex m,
    fun hquotient m pool => applyMessage_ends hex hquotient m pool⟩
  · intro fuel context m next after h
    exact step_gas_lt (run_evolves fuel) hex h
  · intro context m task order ready entered horders henters
    exact horders.limit_lt hex henters
  · intro context m
    obtain ⟨p, hp⟩ := step_ends (endsBelow_run ex.gas) hex context m
    exact ⟨p, fun fuel hfuel => step_covers (run_covers hfuel) hp⟩
  · intro context m
    obtain ⟨result, hresult⟩ := run_ends context m hex (Nat.lt_succ_self ex.gas)
    exact ⟨result, fun fuel hfuel => run_covers hfuel hresult⟩
  · intro codeAddress t input targetGas withStipend context
    have hbound : ex.gas + (if withStipend && Executor.sendsValue t then ex.rules.callStipend
        else 0) < ex.gas + ex.rules.callStipend + 1 := by
      split <;> omega
    obtain ⟨outcome, after, hended⟩ := call_ends (endsBelow_run _) hex codeAddress t input
      targetGas withStipend context hbound
    exact ⟨(outcome, after), fun fuel hfuel => call_covers (run_covers hfuel) hended⟩
  · intro caller value initCode targetGas
    obtain ⟨outcome, after, hended⟩ := create_ends (endsBelow_run _) hex caller value initCode
      targetGas (Nat.lt_succ_self ex.gas)
    exact ⟨(outcome, after), fun fuel hfuel => create_covers (run_covers hfuel) hended⟩

/-- An account whose code jumps to its own start beside one whose code calls itself, under limits
of their own. -/
def loopingExecutor : Executor :=
  let rules : Rules := { Rules.homestead with
    stackLimit := 8
    memoryLimit := 64
    callDepthLimit := 3 }
  let calling : Bytes := #[0x60, 0, 0x60, 0, 0x60, 0, 0x60, 0, 0x60, 0, 0x30, 0x61, 2, 0, 0xf1]
  let accounts : Std.ExtTreeMap Address Account :=
    (Std.ExtTreeMap.empty.insert 0xb ⟨0, 0, ∅, #[0x5b, 0x60, 0, 0x56]⟩).insert 0xc
      ⟨0, 0, ∅, calling⟩
  (Executor.new (.ofAccounts accounts) rules .zero).reset 0xa 900

theorem executions_end_loopingExecutor :
    (∃ m ex, ∀ fuel, 900 < fuel → run fuel ⟨0xb, 0xa, 0⟩
        (loopingExecutor.machine (loopingExecutor.world.code 0xb) #[]) loopingExecutor =
          some (.fault .outOfGas, m, ex)) ∧
    (∃ outcome ex, outcome.exit = .succeed .stopped ∧ ∀ fuel, 3200 < fuel →
      loopingExecutor.call (run fuel) 0xc none #[] none false ⟨0xc, 0xa, 0⟩ =
        some (outcome, ex)) ∧
    ∀ m pool, ∃ applied, loopingExecutor.applyMessage m pool = some applied := by
  have hinstructions : loopingExecutor.instructions = .homestead := rfl
  obtain ⟨-, -, -, hruns, hcalls, -, -, hmessages⟩ :=
    @executions_end loopingExecutor (.inr hinstructions) ⟨.homestead, rfl⟩
  refine ⟨?_, ?_, hmessages (by decide)⟩
  · obtain ⟨⟨exit, m, ex⟩, hrun⟩ := hruns ⟨0xb, 0xa, 0⟩
      (loopingExecutor.machine (loopingExecutor.world.code 0xb) #[])
    have hexit : (run 901 ⟨0xb, 0xa, 0⟩ (loopingExecutor.machine
        (loopingExecutor.world.code 0xb) #[]) loopingExecutor).map (fun r => r.1) =
          some (.fault .outOfGas) := by decide +kernel
    rw [hrun 901 (by decide), Option.map_some, Option.some.injEq] at hexit
    simp only at hexit
    subst hexit
    exact ⟨m, ex, hrun⟩
  · obtain ⟨⟨outcome, ex⟩, hcall⟩ := hcalls 0xc none #[] none false ⟨0xc, 0xa, 0⟩
    have hexit : (loopingExecutor.call (run 3201) 0xc none #[] none false ⟨0xc, 0xa, 0⟩).map
        (fun r => r.1.exit) = some (.succeed .stopped) := by decide +kernel
    rw [hcall 3201 (by decide), Option.map_some, Option.some.injEq] at hexit
    exact ⟨outcome, ex, hexit, hcall⟩

end ContractMachine.Proofs
