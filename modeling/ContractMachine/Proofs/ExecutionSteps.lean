import ContractMachine.Proofs.FuelIndependence

/-!
# The steps of an execution

What a step orders and which frame that starts can be computed, and so can all steps of an
execution, those of a frame below right after the step that started it. The kept steps are those of
frames that are committed together with all frames around them.
-/

namespace ContractMachine.Proofs

namespace Configuration

/-- The task that the step performs, if it comes to that, and on what it performs it. -/
def performance? (c : Configuration) : Option (Task × Machine × Executor) :=
  match c.executor.admit c.machine with
  | .error _ => none
  | .ok task =>
    match Executor.charge task.op c.context.address c.machine.stack task.memoryEnd c.executor with
    | (.error _, _) => none
    | (.ok _, paid) =>
      match Machine.grow task.memoryEnd c.machine with
      | (.error _, _) => none
      | (.ok _, grown) =>
        some (task, grown, paid.emit .runtime
          (.step c.context.address task.op grown.position grown.stack grown.memory))

/-- The call or the creation that the step orders. -/
def order? (c : Configuration) : Option (Order × Executor) :=
  match c.performance? with
  | none => none
  | some (task, grown, ready) =>
    match task.operation.behaviour with
    | .call scheme =>
      match Machine.takeCall scheme grown with
      | (.error _, _) => none
      | (.ok request, _) =>
        some (.call
          { codeAddress := request.target
            transfer := c.context.transferFor scheme request.target request.value
            input := request.input
            targetGas := request.gas.toQuantity?
            withStipend := true
            context := c.context.forCall scheme request.target request.value }, ready)
    | .create =>
      match Machine.takeCreation grown with
      | (.error _, _) => none
      | (.ok (value, initCode), _) =>
        some (.create ⟨c.context.address, value, initCode, none⟩, ready)
    | _ => none

end Configuration

/-- The frame that the order starts. -/
def Order.start? (ex : Executor) : Order → Option Configuration
  | call o =>
    match ex.openCall o.codeAddress o.transfer o.input o.targetGas o.withStipend o.context with
    | .over _ _ => none
    | .ready m started => some ⟨o.context, m, started⟩
  | create o =>
    match ex.openCreation o.caller (ex.nextCreation o.caller) o.value o.initCode o.targetGas with
    | .over _ _ => none
    | .ready m started => some ⟨⟨ex.nextCreation o.caller, o.caller, o.value⟩, m, started⟩

/-- The frame that the step starts. -/
def Configuration.child? (c : Configuration) : Option Configuration :=
  c.order?.bind fun (order, ready) => order.start? ready

/-- The steps of a run, and of all frames below it. -/
def steps : Nat → Configuration → List Configuration
  | 0, _ => []
  | fuel + 1, c =>
    c :: (c.child?.elim [] (steps fuel) ++
      match step (run fuel) c.context c.machine c.executor with
      | some (.next m ex) => steps fuel ⟨c.context, m, ex⟩
      | _ => [])

/-- Whether the frame of an order is committed once it has ended in this way. A creation has to pay
for its code, unless the rules let it go without. -/
def Order.commits (order : Order) (exit : Exit) (output : Bytes) (inner : Executor) : Bool :=
  match order, exit with
  | call _, .succeed _ => true
  | create _, .succeed _ =>
    match Executor.record (.deposit output.size) inner with
    | (.ok _, _) => true
    | (.error _, last) => !last.rules.failsOnUnpaidCode
  | _, _ => false

/-- The frame that the order starts, if it is committed in the end. -/
def Order.committed? (runner : Runner) (ex : Executor) (order : Order) : Option Configuration :=
  (order.start? ex).filter fun child =>
    match runner child.context child.machine child.executor with
    | some (exit, m, inner) => order.commits exit m.returnValue inner
    | none => false

/-- The frame that the step starts, if it is committed in the end. -/
def Configuration.committed? (runner : Runner) (c : Configuration) : Option Configuration :=
  c.order?.bind fun (order, ready) => order.committed? runner ready

/-- The steps of a run, and of the frames below it that are committed with all frames between. -/
def keptSteps : Nat → Configuration → List Configuration
  | 0, _ => []
  | fuel + 1, c =>
    c :: ((c.committed? (run fuel)).elim [] (keptSteps fuel) ++
      match step (run fuel) c.context c.machine c.executor with
      | some (.next m ex) => keptSteps fuel ⟨c.context, m, ex⟩
      | _ => [])

lemma performance?_iff {c : Configuration} {task : Task} {grown : Machine} {ready : Executor} :
    c.performance? = some (task, grown, ready) ↔ Performs c task grown ready := by
  constructor
  · intro h
    unfold Configuration.performance? at h
    split at h
    · cases h
    · next hvetted =>
      split at h
      · cases h
      · next hcharge =>
        split at h
        · cases h
        · next hgrow =>
          cases h
          exact .intro hvetted hcharge hgrow
  · intro h
    cases h with
    | intro hvetted hcharge hgrow =>
      simp only [Configuration.performance?, hvetted, hcharge, hgrow]

lemma order?_iff {c : Configuration} {order : Order} {ready : Executor} :
    c.order? = some (order, ready) ↔ ∃ task, Orders c task order ready := by
  constructor
  · intro h
    unfold Configuration.order? at h
    split at h
    · cases h
    · next task grown ready' hperformance =>
      have hperforms := performance?_iff.mp hperformance
      split at h
      · next scheme hinstruction =>
        split at h
        · cases h
        · next htake =>
          cases h
          exact ⟨task, .call hperforms hinstruction htake⟩
      · next hinstruction =>
        split at h
        · cases h
        · next htake =>
          cases h
          exact ⟨task, .create hperforms hinstruction htake⟩
      · cases h
  · rintro ⟨task, horders⟩
    cases horders with
    | call hperforms hinstruction htake | create hperforms hinstruction htake =>
      simp only [Configuration.order?, performance?_iff.mpr hperforms, hinstruction, htake]

lemma start?_iff {ex : Executor} {order : Order} {child : Configuration} :
    order.start? ex = some child ↔ Starts ex order child := by
  constructor
  · intro h
    cases order with
    | call o | create o =>
      simp only [Order.start?] at h
      split at h
      · cases h
      · next hopening =>
        cases h
        constructor
        exact hopening
  · intro h
    cases h with
    | call hopening | create hopening => simp only [Order.start?, hopening]

lemma child?_iff {c child : Configuration} :
    c.child? = some child ↔ ∃ task order ready, Orders c task order ready ∧
      Starts ready order child := by
  unfold Configuration.child?
  constructor
  · intro h
    obtain ⟨⟨order, ready⟩, horder, hstart⟩ := Option.bind_eq_some_iff.mp h
    obtain ⟨task, horders⟩ := order?_iff.mp horder
    exact ⟨task, order, ready, horders, start?_iff.mp hstart⟩
  · rintro ⟨task, order, ready, horders, hstarts⟩
    exact Option.bind_eq_some_iff.mpr
      ⟨(order, ready), order?_iff.mpr ⟨task, horders⟩, start?_iff.mpr hstarts⟩

lemma Starts.runs {runner : Runner} {ex after : Executor} {order : Order} {child : Configuration}
    (h : Starts ex order child) (hcarried : order.carryOut runner ex = some after) :
    ∃ result, runner child.context child.machine child.executor = some result := by
  cases h with
  | call hopening =>
    obtain ⟨exit, m', last, hrun, -⟩ := carryOut_call_ready hopening hcarried
    exact ⟨_, hrun⟩
  | create hopening =>
    obtain ⟨exit, m', inner, hrun, -⟩ := carryOut_create_ready hopening hcarried
    exact ⟨_, hrun⟩

lemma run_ended_step {fuel : Nat} {c : Configuration} {result : Exit × Machine × Executor}
    (h : run (fuel + 1) c.context c.machine c.executor = some result) :
    ∃ p, step (run fuel) c.context c.machine c.executor = some p := by
  obtain hstep | ⟨next, after, hstep, -⟩ := run_succ h
  · exact ⟨_, hstep⟩
  · exact ⟨_, hstep⟩

/-- No allowance changes what a step leaves. -/
lemma step_same {fuel fuel' : Nat} {c : Configuration} {p p' : Progress}
    (h : step (run fuel) c.context c.machine c.executor = some p)
    (h' : step (run fuel') c.context c.machine c.executor = some p') : p' = p := by
  have hcovered := step_covers (run_covers (Nat.le_max_left fuel fuel')) h
  have hcovered' := step_covers (run_covers (Nat.le_max_right fuel fuel')) h'
  rw [hcovered, Option.some.injEq] at hcovered'
  exact hcovered'.symm

/-- Where an execution goes next, and that it ends from there if it ends at all. -/
lemma Leads.ends {fuel : Nat} {c d : Configuration} {result : Exit × Machine × Executor}
    (h : Leads c d) (hrun : run (fuel + 1) c.context c.machine c.executor = some result) :
    (c.child? = some d ∨
      step (run fuel) c.context c.machine c.executor = some (.next d.machine d.executor) ∧
        d.context = c.context) ∧
    ∃ ended, run fuel d.context d.machine d.executor = some ended := by
  cases h with
  | nested horders hstarts =>
    obtain ⟨p, hstep⟩ := run_ended_step hrun
    obtain ⟨after, event, hcarried, -⟩ := horders.carriedOut hstep
    exact ⟨.inl (child?_iff.mpr ⟨_, _, _, horders, hstarts⟩), hstarts.runs hcarried⟩
  | next hnext =>
    obtain hstep | ⟨next, after, hstep, hrest⟩ := run_succ hrun
    · cases step_same hstep hnext
    · cases step_same hstep hnext
      exact ⟨.inr ⟨hstep, rfl⟩, _, hrest⟩

/-- The steps of an execution that ends are all that it comes to. -/
theorem Reaches.mem_steps {fuel : Nat} {c c' : Configuration} {result : Exit × Machine × Executor}
    (h : Reaches c c') (hrun : run fuel c.context c.machine c.executor = some result) :
    c' ∈ steps fuel c := by
  -- Along the path the allowance goes down by one with every move, as it does in `steps`.
  induction h using Relation.ReflTransGen.head_induction_on generalizing fuel result with
  | refl =>
    cases fuel with
    | zero => cases hrun
    | succ fuel => exact List.mem_cons_self
  | @head c d hleads _ ih =>
    cases fuel with
    | zero => cases hrun
    | succ fuel =>
      obtain ⟨hwhere, ended, hends⟩ := hleads.ends hrun
      have hlater := ih hends
      apply List.mem_cons_of_mem
      obtain hchild | ⟨hstep, hcontext⟩ := hwhere
      · apply List.mem_append_left
        rw [hchild]
        exact hlater
      · apply List.mem_append_right
        rw [hstep]
        simp only [← hcontext]
        exact hlater

/-- All steps listed for an execution are steps that it comes to. -/
theorem reaches_of_mem_steps {fuel : Nat} {c c' : Configuration} (h : c' ∈ steps fuel c) :
    Reaches c c' := by
  induction fuel generalizing c with
  | zero => cases h
  | succ fuel ih =>
    obtain rfl | hlater := List.mem_cons.mp h
    · exact .refl
    · obtain hbelow | hnext := List.mem_append.mp hlater
      · cases hchild : c.child? with
        | none =>
          rw [hchild] at hbelow
          cases hbelow
        | some child =>
          rw [hchild] at hbelow
          obtain ⟨task, order, ready, horders, hstarts⟩ := child?_iff.mp hchild
          exact .head (.nested horders hstarts) (ih hbelow)
      · split at hnext
        · next m ex hstep => exact .head (.next hstep) (ih hnext)
        · cases hnext

lemma child?_of_committed? {runner : Runner} {c child : Configuration}
    (h : c.committed? runner = some child) : c.child? = some child := by
  obtain ⟨⟨order, ready⟩, horder, hcommitted⟩ := Option.bind_eq_some_iff.mp h
  have hstart := (Option.filter_eq_some_iff.mp hcommitted).1
  rw [Configuration.child?, horder, Option.bind_some]
  exact hstart

/-- The kept steps are some of the steps, in the same order. -/
theorem keptSteps_sublist (fuel : Nat) (c : Configuration) :
    (keptSteps fuel c).Sublist (steps fuel c) := by
  induction fuel generalizing c with
  | zero => exact .refl _
  | succ fuel ih =>
    simp only [keptSteps, steps]
    apply List.Sublist.cons_cons
    apply List.Sublist.append
    · cases hcommitted : c.committed? (run fuel) with
      | none => exact List.nil_sublist _
      | some child =>
        rw [child?_of_committed? hcommitted]
        exact ih child
    · rcases step (run fuel) c.context c.machine c.executor with _ | ⟨m, ex⟩ | ⟨exit, m, ex⟩
      · exact .refl _
      · exact ih _
      · exact .refl _

end ContractMachine.Proofs
