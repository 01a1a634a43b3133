import ContractMachine.Proofs.NestedFrames

/-!
# What a step does to the executor

An instruction either works on the machine alone or has one of six effects on the executor.
A step looks the instruction over, charges for it and performs it. Hence every step, and by
induction on the steps allowed every run, lets the executor evolve.
-/

namespace ContractMachine.Proofs

/-- What performing an instruction on the machine `m` makes of the executor. -/
inductive Effect (runner : Runner) (context : Context) (m : Machine) (ex : Executor) :
    Instruction → Executor → Prop
  | machine (i : Instruction) : Effect runner context m ex i ex
  | loaded (event : Event) : Effect runner context m ex .sload (ex.emit .runtime event)
  | stored (event : Event) (slot value : Word) :
    Effect runner context m ex .sstore ((ex.emit .runtime event).onWorld fun w =>
      w.setStorage context.address slot value)
  | logged {count : Nat} (topics : List Word) (data : Bytes) :
    Effect runner context m ex (.log count) (ex.onWorld fun w =>
      w.log ⟨context.address, topics, data⟩)
  | created {value : Word} {initCode : Bytes} {taken : Machine} {outcome : Creation}
      {ex' : Executor} (h : ex.create runner context.address value initCode none =
        some (outcome, ex'))
      (htake : Machine.takeCreation m = (.ok (value, initCode), taken)) :
    Effect runner context m ex .create ex'
  | called {scheme : CallScheme} {request : Machine.CallRequest} {taken : Machine}
      {outcome : CallOutcome} {ex' : Executor}
      (htake : Machine.takeCall scheme m = (.ok request, taken))
      (h : ex.call runner request.target
        (context.transferFor scheme request.target request.value) request.input
        request.gas.toQuantity? true (context.forCall scheme request.target request.value) =
          some (outcome, ex')) :
    Effect runner context m ex (.call scheme) ex'
  | destroyed (target : Address) :
    Effect runner context m ex .selfDestruct (Executor.markDestroyed context.address target ex).2

lemma proceed_executor {x : Action Machine Unit} {m m' : Machine} {ex ex' : Executor}
    {control : Control} (h : some (proceed x m ex) = some (control, m', ex')) : ex' = ex := by
  unfold proceed at h
  cases hx : x m with
  | mk result taken => cases result <;> simp_all

lemma takeThen_cases {α : Type} {x : Action Machine α} {m m' : Machine} {ex ex' : Executor}
    {k : α → Machine → Executor → Option (Control × Machine × Executor)} {control : Control}
    (h : takeThen x m ex k = some (control, m', ex')) :
    (∃ f, x m = (.error f, m') ∧ control = .fault f ∧ ex' = ex) ∨
      ∃ a taken, x m = (.ok a, taken) ∧ k a taken ex = some (control, m', ex') := by
  unfold takeThen at h
  cases hx : x m with
  | mk result taken =>
    cases result with
    | error f =>
      simp only [hx, Option.some.injEq, Prod.mk.injEq] at h
      obtain ⟨rfl, rfl, rfl⟩ := h
      exact .inl ⟨f, rfl, rfl, rfl⟩
    | ok a =>
      rw [hx] at h
      exact .inr ⟨a, taken, rfl, h⟩

lemma performLoad_effect {runner : Runner} {context : Context} {m m' : Machine}
    {ex ex' : Executor} {control : Control}
    (h : performLoad context m ex = (control, m', ex')) :
    Effect runner context m ex .sload ex' := by
  unfold performLoad at h
  cases hpop : Machine.pop m with
  | mk result popped =>
    cases result with
    | error f =>
      simp only [hpop, Prod.mk.injEq] at h
      obtain ⟨-, -, rfl⟩ := h
      exact .machine _
    | ok slot =>
      cases hpush : Machine.push (ex.world.storage context.address slot) popped with
      | mk result pushed =>
        cases result with
        | error f =>
          simp only [hpop, hpush, Prod.mk.injEq] at h
          obtain ⟨-, -, rfl⟩ := h
          exact .machine _
        | ok u =>
          simp only [hpop, hpush, Prod.mk.injEq] at h
          obtain ⟨-, -, rfl⟩ := h
          exact .loaded _

/-- Performing an instruction has the effect of that instruction or none. -/
theorem perform_effect {runner : Runner} {i : Instruction} {context : Context} {m m' : Machine}
    {ex ex' : Executor} {control : Control}
    (h : perform runner i context m ex = some (control, m', ex')) :
    Effect runner context m ex i ex' := by
  cases i with
  | sload =>
    simp only [perform, Option.some.injEq] at h
    exact performLoad_effect h
  | sstore =>
    simp only [perform] at h
    obtain ⟨f, -, -, rfl⟩ | ⟨⟨slot, value⟩, taken, -, hk⟩ := takeThen_cases h
    · exact .machine _
    · simp only [Option.some.injEq, Prod.mk.injEq] at hk
      obtain ⟨-, -, rfl⟩ := hk
      exact .stored _ slot value
  | log count =>
    simp only [perform] at h
    obtain ⟨f, -, -, rfl⟩ | ⟨⟨topics, data⟩, taken, -, hk⟩ := takeThen_cases h
    · exact .machine _
    · simp only [Option.some.injEq, Prod.mk.injEq] at hk
      obtain ⟨-, -, rfl⟩ := hk
      exact .logged topics data
  | create =>
    simp only [perform] at h
    obtain ⟨f, -, -, rfl⟩ | ⟨⟨value, initCode⟩, taken, htake, hk⟩ := takeThen_cases h
    · exact .machine _
    · simp only at hk
      cases hcreate : ex.create runner context.address value initCode none with
      | none => simp [hcreate] at hk
      | some result =>
        obtain ⟨outcome, after⟩ := result
        simp only [hcreate] at hk
        have hex := proceed_executor hk
        subst hex
        exact .created hcreate htake
  | call scheme =>
    simp only [perform] at h
    obtain ⟨f, -, -, rfl⟩ | ⟨request, taken, htake, hk⟩ := takeThen_cases h
    · exact .machine _
    · cases hcall : ex.call runner request.target
          (context.transferFor scheme request.target request.value) request.input
          request.gas.toQuantity? true (context.forCall scheme request.target request.value) with
      | none => simp [hcall] at hk
      | some result =>
        obtain ⟨outcome, after⟩ := result
        simp only [hcall] at hk
        have hex := proceed_executor hk
        subst hex
        exact .called htake hcall
  | selfDestruct =>
    simp only [perform] at h
    obtain ⟨f, -, -, rfl⟩ | ⟨target, taken, -, hk⟩ := takeThen_cases h
    · exact .machine _
    · have hex : ex' = (Executor.markDestroyed context.address target.toAddress ex).2 := by
        cases hmark : Executor.markDestroyed context.address target.toAddress ex with
        | mk result after => cases result <;> simp_all
      subst hex
      exact .destroyed _
  | ret =>
    simp only [perform] at h
    obtain ⟨f, -, -, rfl⟩ | ⟨u, taken, -, hk⟩ := takeThen_cases h
    · exact .machine _
    · simp only [Option.some.injEq, Prod.mk.injEq] at hk
      obtain ⟨-, -, rfl⟩ := hk
      exact .machine _
  | stop | jumpDest =>
    simp only [perform, Option.some.injEq, Prod.mk.injEq] at h
    obtain ⟨-, -, rfl⟩ := h
    exact .machine _
  | invalid =>
    simp only [perform] at h
    cases hop : m.opcode? <;> simp_all <;> exact .machine _
  | _ =>
    simp only [perform] at h
    have hex := proceed_executor h
    subst hex
    exact .machine _

lemma call_evolves {runner : Runner} (hr : EvolvingRunner runner) (self : Address)
    {ex ex' : Executor} {codeAddress : Address} {t : Option Transfer} {input : Bytes}
    {targetGas : Option Nat} {withStipend : Bool} {context : Context} {outcome : CallOutcome}
    (h : ex.call runner codeAddress t input targetGas withStipend context =
      some (outcome, ex')) : Evolves self ex ex' := by
  have hpaid (event : Event) (e : Entry) :
      Evolves self ex (Executor.record e (ex.emit .executor event)).2 :=
    (Evolves.emit self ex .executor event).trans (.record self _ e)
  cases call_bracket hr h with
  | @unpaid event f mid hpay hexit =>
    have hmid := hpaid event (.cost (min (targetGas.getD ex.gas) ex.gas))
    rw [hpay] at hmid
    exact hmid
  | @closed event mid inner closing hpay hinner hclosing =>
    have hmid := hpaid event (.cost (min (targetGas.getD ex.gas) ex.gas))
    rw [hpay] at hmid
    exact hmid.trans (.nested closing hinner)

/-- A creation that gets past its checks starts from a nonce that can be raised. -/
lemma nonce_ne_of_creationFault {ex : Executor} {caller : Address} {value : Word}
    (h : ex.creationFault caller value = none) : ex.world.nonce caller ≠ 0xffffffffffffffff := by
  intro hmax
  unfold Executor.creationFault at h
  simp only [hmax] at h
  repeat' split at h
  all_goals simp_all

lemma create_evolves {runner : Runner} (hr : EvolvingRunner runner) {ex ex' : Executor}
    {caller : Address} {value : Word} {initCode : Bytes} {targetGas : Option Nat}
    {outcome : Creation}
    (h : ex.create runner caller value initCode targetGas = some (outcome, ex')) :
    Evolves caller ex ex' := by
  have hpaid (event : Event) (e : Entry) :
      Evolves caller ex (Executor.record e (ex.emit .executor event)).2 :=
    (Evolves.emit caller ex .executor event).trans (.record caller _ e)
  have hraised {event : Event} {mid : Executor} (hfault : ex.creationFault caller value = none)
      (hpay : Executor.record (.cost (min ex.gas (targetGas.getD ex.gas)))
        (ex.emit .executor event) = (.ok (), mid)) : Evolves caller ex (raiseNonce caller mid) := by
    have hmid := hpaid event (.cost (min ex.gas (targetGas.getD ex.gas)))
    rw [hpay] at hmid
    have hworld : mid.world = ex.world := by
      have heq := congrArg (fun result => result.2.world) hpay
      simpa [record_eq] using heq.symm
    refine hmid.trans (.change (.raiseNonce ?_))
    rw [hworld]
    exact nonce_ne_of_creationFault hfault
  have hbracket := creation_bracket hr h
  generalize outcome.exit = exit at hbracket
  cases hbracket with
  | refused hfault => exact .emit caller ex .executor _
  | @unpaid event f mid hfault hpay =>
    have hmid := hpaid event (.cost (min ex.gas (targetGas.getD ex.gas)))
    rw [hpay] at hmid
    exact hmid
  | founded halt code hfault hpay hinner =>
    exact ((hraised hfault hpay).trans (.nested .commit hinner)).trans (.change (.deposit _ code))
  | withoutCode hfault hpay hinner => exact (hraised hfault hpay).trans (.nested .commit hinner)
  | failed hfault hpay hinner hexit hclosing =>
    exact (hraised hfault hpay).trans (.nested _ hinner)

lemma markDestroyed_evolves (self target : Address) (ex : Executor) :
    Evolves self ex (Executor.markDestroyed self target ex).2 := by
  have hemit := Evolves.emit self ex .executor (.selfDestruct self target (ex.world.balance self))
  obtain ⟨trace, htrace⟩ := emit_eq ex .executor (.selfDestruct self target (ex.world.balance self))
  rw [htrace] at hemit
  simp only [Executor.markDestroyed, htrace]
  obtain ⟨_, h⟩ | ⟨_, h⟩ := transfer_cases ⟨self, target, ex.world.balance self⟩
    { ex with trace := trace }
  · simp only [h]
    exact hemit
  · simp only [h]
    exact hemit.trans (.change (.destroy target))

theorem Effect.evolves {runner : Runner} (hr : EvolvingRunner runner) {context : Context}
    {m : Machine} {ex ex' : Executor} {i : Instruction} (h : Effect runner context m ex i ex') :
    Evolves context.address ex ex' := by
  cases h with
  | machine i => exact .refl _ _
  | loaded event => exact .emit _ _ _ _
  | stored event slot value => exact (Evolves.emit _ _ _ _).trans (.change (.store slot value))
  | logged topics data => exact .change (.log topics data)
  | created h => exact create_evolves hr h
  | called htake h => exact call_evolves hr _ h
  | destroyed target => exact markDestroyed_evolves _ target ex

/-- A charge is refused at once or is the record of one entry. -/
lemma charge_cases {β φ : Type} (op : Opcode) (address : Address) (stack : Stack)
    (memoryEnd : Option Nat) (ex : Executor β φ) :
    (∃ f, Executor.charge op address stack memoryEnd ex = (.error f, ex)) ∨
      ∃ e, Executor.charge op address stack memoryEnd ex = Executor.record e ex ∧
        ((∃ cost, op.staticCost? = some cost ∧ e = .cost cost) ∨
          ∃ price, ex.price op address stack = .ok price ∧ e = .priced price memoryEnd) := by
  cases hprice : ex.price op address stack with
  | error f =>
    cases hstatic : op.staticCost? with
    | none => exact .inl ⟨f, by simp only [Executor.charge, hstatic, hprice]⟩
    | some cost =>
      cases memoryEnd with
      | none => exact .inr ⟨.cost cost, by simp only [Executor.charge, hstatic], .inl ⟨_, rfl, rfl⟩⟩
      | some stop => exact .inl ⟨f, by simp only [Executor.charge, hstatic, hprice]⟩
  | ok price =>
    cases hstatic : op.staticCost? with
    | none => exact .inr ⟨_, by simp only [Executor.charge, hstatic, hprice], .inr ⟨_, rfl, rfl⟩⟩
    | some cost =>
      cases memoryEnd with
      | none => exact .inr ⟨.cost cost, by simp only [Executor.charge, hstatic], .inl ⟨_, rfl, rfl⟩⟩
      | some stop =>
        exact .inr ⟨_, by simp only [Executor.charge, hstatic, hprice], .inr ⟨_, rfl, rfl⟩⟩

/-- The ways in which a step goes: the instruction is refused when it is looked over, when it is
charged for or when its memory is grown, or it is performed. -/
inductive Stepped (runner : Runner) (context : Context) (m : Machine) (ex : Executor) :
    Progress → Prop
  | refused {exit : Exit} (hvetted : ex.admit m = .error exit) :
    Stepped runner context m ex (.exit exit m ex)
  | unpaid {task : Task} {f : Fault} {mid : Executor} (hvetted : ex.admit m = .ok task)
      (hcharge : Executor.charge task.op context.address m.stack task.memoryEnd ex =
        (.error f, mid)) :
    Stepped runner context m ex (.exit (.fault f) m mid)
  | tooLarge {task : Task} {f : Fault} {mid : Executor} {grown : Machine}
      (hvetted : ex.admit m = .ok task)
      (hcharge : Executor.charge task.op context.address m.stack task.memoryEnd ex =
        (.ok (), mid))
      (hgrow : Machine.grow task.memoryEnd m = (.error f, grown)) :
    Stepped runner context m ex (.exit (.fault f) grown mid)
  | goesOn {task : Task} {mid after : Executor} {grown done next : Machine} {control : Control}
      {before event : Event} (hvetted : ex.admit m = .ok task)
      (hcharge : Executor.charge task.op context.address m.stack task.memoryEnd ex =
        (.ok (), mid))
      (hgrow : Machine.grow task.memoryEnd m = (.ok (), grown))
      (hperform : perform runner task.operation.behaviour context grown
        (mid.emit .runtime before) = some (control, done, after))
      (hconclude : task.conclude control done = (none, next)) :
    Stepped runner context m ex (.next next (after.emit .runtime event))
  | ends {task : Task} {mid after : Executor} {grown done last : Machine} {control : Control}
      {before event : Event} {exit : Exit} (hvetted : ex.admit m = .ok task)
      (hcharge : Executor.charge task.op context.address m.stack task.memoryEnd ex =
        (.ok (), mid))
      (hgrow : Machine.grow task.memoryEnd m = (.ok (), grown))
      (hperform : perform runner task.operation.behaviour context grown
        (mid.emit .runtime before) = some (control, done, after))
      (hconclude : task.conclude control done = (some exit, last)) :
    Stepped runner context m ex (.exit exit last (after.emit .runtime event))

theorem step_stepped {runner : Runner} {context : Context} {m : Machine} {ex : Executor}
    {p : Progress} (h : step runner context m ex = some p) : Stepped runner context m ex p := by
  unfold step at h
  cases hvetted : ex.admit m with
  | error exit =>
    simp only [hvetted, Option.some.injEq] at h
    subst h
    exact .refused hvetted
  | ok task =>
    cases hcharge : Executor.charge task.op context.address m.stack task.memoryEnd ex with
    | mk result mid =>
      cases result with
      | error f =>
        simp only [hvetted, hcharge, Option.some.injEq] at h
        subst h
        exact .unpaid hvetted hcharge
      | ok u =>
        cases hgrow : Machine.grow task.memoryEnd m with
        | mk result grown =>
          cases result with
          | error f =>
            simp only [hvetted, hcharge, hgrow, Option.some.injEq] at h
            subst h
            exact .tooLarge hvetted hcharge hgrow
          | ok u =>
            simp only [hvetted, hcharge, hgrow, Task.dispatch, act_instruction] at h
            split at h
            · simp at h
            · next control done after hperform =>
              cases hconclude : task.conclude control done with
              | mk exit last =>
                cases exit with
                | none =>
                  simp only [hconclude, Option.some.injEq] at h
                  subst h
                  exact .goesOn hvetted hcharge hgrow hperform hconclude
                | some exit =>
                  simp only [hconclude, Option.some.injEq] at h
                  subst h
                  exact .ends hvetted hcharge hgrow hperform hconclude

lemma charge_evolves (self : Address) (op : Opcode) (address : Address) (stack : Stack)
    (memoryEnd : Option Nat) (ex : Executor) :
    Evolves self ex (Executor.charge op address stack memoryEnd ex).2 := by
  obtain ⟨f, h⟩ | ⟨e, h, -⟩ := charge_cases op address stack memoryEnd ex
  · rw [h]
    exact .refl _ _
  · rw [h]
    exact .record _ _ _

/-- The executor that a step leaves. -/
def Progress.executor : Progress → Executor
  | .next _ ex => ex
  | .exit _ _ ex => ex

/-- The machine that a step leaves. -/
def Progress.machine : Progress → Machine
  | .next m _ => m
  | .exit _ m _ => m

theorem step_evolves {runner : Runner} (hr : EvolvingRunner runner) {context : Context}
    {m : Machine} {ex : Executor} {p : Progress} (h : step runner context m ex = some p) :
    Evolves context.address ex (Progress.executor p) := by
  have hpaid {task : Task} {result : Except Fault Unit} {mid : Executor}
      (hcharge : Executor.charge task.op context.address m.stack task.memoryEnd ex =
        (result, mid)) : Evolves context.address ex mid := by
    have hmid := charge_evolves context.address task.op context.address m.stack task.memoryEnd ex
    rw [hcharge] at hmid
    exact hmid
  cases step_stepped h with
  | refused hvetted => exact .refl _ _
  | unpaid hvetted hcharge => exact hpaid hcharge
  | tooLarge hvetted hcharge hgrow => exact hpaid hcharge
  | goesOn hvetted hcharge hgrow hperform hconclude =>
    have heffect := (perform_effect hperform).evolves hr
    exact (((hpaid hcharge).trans (.emit _ _ _ _)).trans heffect).trans (.emit _ _ _ _)
  | ends hvetted hcharge hgrow hperform hconclude =>
    have heffect := (perform_effect hperform).evolves hr
    exact (((hpaid hcharge).trans (.emit _ _ _ _)).trans heffect).trans (.emit _ _ _ _)

/-- A run that ends takes one step, which is its last or is followed by a shorter run. -/
lemma run_succ {fuel : Nat} {context : Context} {m m' : Machine} {ex ex' : Executor} {exit : Exit}
    (h : run (fuel + 1) context m ex = some (exit, m', ex')) :
    step (run fuel) context m ex = some (.exit exit m' ex') ∨
      ∃ next after, step (run fuel) context m ex = some (.next next after) ∧
        run fuel context next after = some (exit, m', ex') := by
  simp only [run] at h
  cases hstep : step (run fuel) context m ex with
  | none => simp [hstep] at h
  | some p =>
    cases p with
    | next next after =>
      simp only [hstep] at h
      exact .inr ⟨next, after, rfl, h⟩
    | exit last lastMachine after =>
      simp only [hstep, Option.some.injEq, Prod.mk.injEq] at h
      obtain ⟨rfl, rfl, rfl⟩ := h
      exact .inl rfl

/-- Runs of any length evolve, and so do those of the frames nested in them. -/
theorem run_evolves (fuel : Nat) : EvolvingRunner (run fuel) := by
  induction fuel with
  | zero =>
    intro context m m' ex ex' exit h
    simp [run] at h
  | succ fuel ih =>
    intro context m m' ex ex' exit h
    -- Nested frames and later steps run on the same fuel, so `ih` serves for both.
    obtain hstep | ⟨next, after, hstep, hrest⟩ := run_succ h
    · exact step_evolves ih hstep
    · exact (step_evolves ih hstep).trans (ih hrest)

end ContractMachine.Proofs
