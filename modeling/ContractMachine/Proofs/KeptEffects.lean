import ContractMachine.Proofs.Refunds

/-!
# What kept steps leave in the world

Some parts of the world change only in ways that can be told from the step: the nonce of an
account, the logs, the marks. Such a part is in the end what the kept steps have made of it, one
after the other, because a frame that is not committed takes back what was done in it.
-/

namespace ContractMachine.Proofs

/-- A part of the world, with what a step does to it, the frame that it starts left aside. -/
structure Part (α : Type) where
  value : World → α
  own : Configuration → α → α

variable {α : Type}

/-- The part changes as its steps say, and in no other way. -/
structure Part.Lawful (part : Part α) : Prop where
  idle : ∀ {c v}, c.performance? = none → part.own c v = v
  unordered : ∀ {runner c task grown ready control done after}, Performs c task grown ready →
    perform runner task.operation.behaviour c.context grown ready =
      some (control, done, after) → (∀ f, control ≠ .fault f) → c.order? = none →
        part.value after.world = part.own c (part.value ready.world)
  entered : ∀ {c task order ready entered}, Orders c task order ready → Enters ready order entered →
    part.value entered.world = part.own c (part.value ready.world)
  refused : ∀ {c task order ready after}, Orders c task order ready → Refused ready order after →
    part.own c (part.value ready.world) = part.value ready.world
  prepared : ∀ {ex order entered started}, Prepares ex order entered started →
    part.value started.world = part.value entered.world
  coded : ∀ w a code, part.value (w.setCode a code) = part.value w

/-- These steps lead the part from the first value to the second. Each finds what the steps before
it have left. -/
inductive Chronicle (part : Part α) : α → List Configuration → α → Prop
  | nil (v : α) : Chronicle part v [] v
  | cons {c : Configuration} {rest : List Configuration} {v : α}
      (h : Chronicle part (part.own c (part.value c.executor.world)) rest v) :
    Chronicle part (part.value c.executor.world) (c :: rest) v

variable {part : Part α}

lemma Chronicle.append {u v w : α} {first rest : List Configuration}
    (h : Chronicle part u first v) (h' : Chronicle part v rest w) :
    Chronicle part u (first ++ rest) w := by
  induction h with
  | nil => exact h'
  | cons _ ih => exact .cons (ih h')

section Orders

variable {runner : Runner} {ex entered last after : Executor} {order : Order} {closing : Closing}
  {kept : Configuration → List Configuration}

/-- The frames that the order can start have their kept steps lead from their start to their end. -/
def Chronicled (part : Part α) (runner : Runner) (kept : Configuration → List Configuration)
    (ex : Executor) (order : Order) : Prop :=
  ∀ {child halt m inner}, Starts ex order child →
    runner child.context child.machine child.executor = some (.succeed halt, m, inner) →
      Chronicle part (part.value child.executor.world) (kept child) (part.value inner.world)

lemma Commits.chronicle (hlaw : part.Lawful) (henters : Enters ex order entered)
    (hchildren : Chronicled part runner kept ex order)
    (h : Commits runner ex order entered last closing) :
    (closing = .commit → Chronicle part (part.value entered.world)
      ((order.committed? runner ex).elim [] kept) (part.value last.world)) ∧
    (closing ≠ .commit → order.committed? runner ex = none) := by
  cases h with
  | undone hclosing hcommitted =>
    exact ⟨fun hcommit => absurd hcommit hclosing, fun _ => hcommitted⟩
  | codeless hcommitted hprepares =>
    rw [hcommitted, hlaw.prepared hprepares]
    exact ⟨fun _ => .nil _, fun _ => rfl⟩
  | ran hcommitted hstarts hrun hworld =>
    have hbelow := hchildren hstarts hrun
    rw [hlaw.prepared (henters.prepares hstarts)] at hbelow
    rw [hcommitted, hworld]
    exact ⟨fun _ => hbelow, fun hclosing => absurd rfl hclosing⟩

/-- The kept steps below an order lead from where its frame was entered, or was refused, to where
the order leaves the part. -/
lemma carryOut_chronicle (hlaw : part.Lawful) (hr : EvolvingRunner runner) {v : α}
    (hentered : ∀ {entered}, Enters ex order entered → part.value entered.world = v)
    (hrefused : ∀ {after}, Refused ex order after → part.value ex.world = v)
    (hchildren : Chronicled part runner kept ex order)
    (h : order.carryOut runner ex = some after) :
    Chronicle part v ((order.committed? runner ex).elim [] kept) (part.value after.world) := by
  obtain hrefusal | ⟨entered, last, closing, henters, hpasses, hcloses⟩ := carryOut_cases hr h
  · rw [hrefusal.uncommitted, hrefusal.world, hrefused hrefusal]
    exact .nil _
  · obtain ⟨hcommit, hundone⟩ := (hpasses.commits henters).chronicle hlaw henters hchildren
    rw [hentered henters] at hcommit
    obtain ⟨self, outer, gasLimit, -, rfl⟩ := id henters.around
    have hkeeps := (hpasses.evolves hr).keeps
    have hclosed : Chronicle part v ((order.committed? runner ex).elim [] kept)
        (part.value (last.close closing).world) := by
      rw [close_world closing hkeeps, closedWorld]
      by_cases hclosing : closing = .commit
      · rw [if_pos hclosing]
        exact hcommit hclosing
      · have houter : part.value (outer.enter gasLimit false).world = v := hentered henters
        change part.value outer.world = v at houter
        rw [if_neg hclosing, hundone hclosing, houter]
        exact .nil _
    cases hcloses with
    | plain => exact hclosed
    | founded last code hstarts =>
      show Chronicle part v _ (part.value ((last.close .commit).world.setCode _ _))
      rw [hlaw.coded]
      exact hclosed

end Orders

/-- A step that does not fault leads the part to where its own change and the kept steps below it
do. -/
lemma step_chronicle (hlaw : part.Lawful) {fuel : Nat} {c : Configuration} {p : Progress}
    (hchildren : ∀ {task order ready}, Orders c task order ready →
      Chronicled part (run fuel) (keptSteps fuel) ready order)
    (h : step (run fuel) c.context c.machine c.executor = some p)
    (hp : ∀ f m ex, p ≠ .exit (.fault f) m ex) :
    Chronicle part (part.value c.executor.world)
      (c :: (c.committed? (run fuel)).elim [] (keptSteps fuel))
      (part.value (Progress.executor p).world) := by
  refine .cons ?_
  cases horder : c.order? with
  | some ordered =>
    obtain ⟨order, ready⟩ := ordered
    obtain ⟨task, horders⟩ := order?_iff.mp horder
    obtain ⟨grown, hperforms⟩ := horders.performs
    obtain ⟨after, event, hcarried, hexecutor⟩ := horders.carriedOut h
    rw [Configuration.committed?, horder, Option.bind_some, hexecutor, emit_world,
      ← hperforms.world]
    exact carryOut_chronicle hlaw (run_evolves fuel) (fun henters => hlaw.entered horders henters)
      (fun hrefused => (hlaw.refused horders hrefused).symm) (hchildren horders) hcarried
  | none =>
    rw [Configuration.committed?, horder, Option.bind_none]
    obtain ⟨hnone, hsame⟩ | ⟨task, grown, ready, control, done, after, event, hperforms, hperform,
      hcontrol, hexecutor⟩ := step_faultless h hp
    · rw [hlaw.idle hnone, hsame]
      exact .nil _
    · rw [hexecutor, emit_world, hlaw.unordered hperforms hperform hcontrol horder,
        hperforms.world]
      exact .nil _

/-- A run that ends well leads the part to where its kept steps do. -/
theorem run_chronicle (hlaw : part.Lawful) (fuel : Nat) {c : Configuration} {halt : Halt}
    {m : Machine} {ex : Executor}
    (h : run fuel c.context c.machine c.executor = some (.succeed halt, m, ex)) :
    Chronicle part (part.value c.executor.world) (keptSteps fuel c) (part.value ex.world) := by
  induction fuel generalizing c halt m ex with
  | zero => cases h
  | succ fuel ih =>
    rw [keptSteps, ← List.cons_append]
    obtain hstep | ⟨next, after, hstep, hrest⟩ := run_succ h
    · rw [hstep, List.append_nil]
      exact step_chronicle hlaw (fun _ _ _ _ _ _ => ih) hstep (by simp)
    · rw [hstep]
      have hfirst := step_chronicle hlaw (fun _ _ _ _ _ _ => ih) hstep (by simp)
      exact hfirst.append (ih (c := ⟨c.context, next, after⟩) hrest)

/-- So does an order that is carried out on its own. -/
theorem runs_chronicle (hlaw : part.Lawful) {allowance : Executor → Nat} {ex after : Executor}
    {order : Order} {v : α}
    (hentered : ∀ {entered}, Enters ex order entered → part.value entered.world = v)
    (hrefused : ∀ {after}, Refused ex order after → part.value ex.world = v)
    (h : order.carryOut (runs allowance) ex = some after) :
    Chronicle part v (order.keptSteps allowance ex) (part.value after.world) :=
  carryOut_chronicle hlaw (runs_evolving _) hentered hrefused
    (fun _ hrun => run_chronicle hlaw _ hrun) h

end ContractMachine.Proofs
