import ContractMachine.Proofs.TaskRefunds

/-!
# Refunds

The refunds that frames owe are counted in their meters and the marks in the world. Both are kept
where a frame is committed and dropped where it is not, so that in the end they agree.
-/

namespace ContractMachine.Proofs

section Orders

variable {runner : Runner} {ex entered last after : Executor} {order : Order} {closing : Closing}
  {child : Configuration}

lemma committed?_eq_none (h : ∀ child, ¬Starts ex order child) :
    order.committed? runner ex = none := by
  have hstart : order.start? ex = none :=
    Option.eq_none_iff_forall_ne_some.mpr fun child hchild => h child (start?_iff.mp hchild)
  rw [Order.committed?, hstart, Option.filter_none]

lemma committed?_of_run {exit : Exit} {m : Machine} {inner : Executor}
    (hstarts : Starts ex order child)
    (hrun : runner child.context child.machine child.executor = some (exit, m, inner)) :
    order.committed? runner ex =
      if order.commits exit m.returnValue inner then some child else none := by
  simp only [Order.committed?, start?_iff.mpr hstarts, Option.filter_some, hrun]

lemma Enters.prepares (h : Enters ex order entered) (hstarts : Starts ex order child) :
    Prepares ex order entered child.executor := by
  obtain ⟨-, entered', henters, hprepares⟩ := hstarts.prepared
  rw [h.unique henters] at hprepares
  exact hprepares

lemma Enters.uncommitted (h : Enters ex order entered)
    (hunprepared : ∀ started, ¬Prepares ex order entered started) :
    order.committed? runner ex = none :=
  committed?_eq_none fun _ hstarts => hunprepared _ (h.prepares hstarts)

lemma Refused.uncommitted (h : Refused ex order after) : order.committed? runner ex = none := by
  refine committed?_eq_none fun child hstarts => ?_
  obtain ⟨-, entered, henters, -⟩ := hstarts.prepared
  exact henters.not_refused h

lemma commits_succeed {exit : Exit} {output : Bytes} {inner : Executor}
    (h : order.commits exit output inner = true) : ∃ halt, exit = .succeed halt := by
  cases exit with
  | succeed halt => exact ⟨halt, rfl⟩
  | fault f | revert => cases order <;> cases h

lemma Deposits.commits {o : CreationOrder} {output : Bytes} {inner last : Executor} {exit : Exit}
    (h : Deposits output inner exit last closing) :
    (Order.create o).commits exit output inner = true ↔ closing = .commit := by
  cases h with
  | paid hpay => simp only [Order.commits, hpay]
  | unpaid hpay =>
    simp only [Order.commits, hpay]
    by_cases hfails : last.rules.failsOnUnpaidCode = true <;> simp [hfails]
  | faulted f | reverted => simp [Order.commits]

lemma Deposits.world {output : Bytes} {inner last : Executor} {exit : Exit}
    (h : Deposits output inner exit last closing) : last.world = inner.world := by
  cases h with
  | paid hpay | unpaid hpay =>
    rw [record_eq, Prod.mk.injEq] at hpay
    rw [← hpay.2]
  | faulted f | reverted => rfl

lemma Deposits.tallies {output : Bytes} {inner last : Executor} {exit : Exit}
    (h : Deposits output inner exit last closing) (hinner : InRange inner) :
    Tallies 0 inner last := by
  cases h with
  | paid hpay | unpaid hpay =>
    have hpaid := record_tallies (e := .deposit output.size) hinner rfl
    rw [hpay] at hpaid
    exact hpaid
  | faulted f | reverted => exact .refl hinner

/-- How the frame of an order comes to be committed, if it is: its code is empty, or it ran and
ended well. -/
inductive Commits (runner : Runner) (ex : Executor) (order : Order) (entered last : Executor) :
    Closing → Prop
  | undone {closing : Closing} (hclosing : closing ≠ .commit)
      (hcommitted : order.committed? runner ex = none) :
    Commits runner ex order entered last closing
  | codeless (hcommitted : order.committed? runner ex = none)
      (hprepares : Prepares ex order entered last) :
    Commits runner ex order entered last .commit
  | ran {child : Configuration} {halt : Halt} {m : Machine} {inner : Executor}
      (hcommitted : order.committed? runner ex = some child) (hstarts : Starts ex order child)
      (hrun : runner child.context child.machine child.executor = some (.succeed halt, m, inner))
      (hworld : last.world = inner.world) (hlast : InRange inner → Tallies 0 inner last) :
    Commits runner ex order entered last .commit

lemma Commits.of_run {exit : Exit} {m : Machine} {inner : Executor}
    (hstarts : Starts ex order child)
    (hrun : runner child.context child.machine child.executor = some (exit, m, inner))
    (hcommits : order.commits exit m.returnValue inner = true ↔ closing = .commit)
    (hworld : last.world = inner.world) (hlast : InRange inner → Tallies 0 inner last) :
    Commits runner ex order entered last closing := by
  have hcommitted := committed?_of_run hstarts hrun
  by_cases hclosing : closing = .commit
  · have hcommit := hcommits.mpr hclosing
    obtain ⟨halt, rfl⟩ := commits_succeed hcommit
    rw [if_pos hcommit] at hcommitted
    subst hclosing
    exact .ran hcommitted hstarts hrun hworld hlast
  · rw [if_neg (mt hcommits.mp hclosing)] at hcommitted
    exact .undone hclosing hcommitted

lemma Passes.commits (henters : Enters ex order entered)
    (h : Passes runner ex order entered last closing) :
    Commits runner ex order entered last closing := by
  cases h with
  -- The first four end before a frame starts: what they fail at is what preparing it needs.
  | tooDeep hdepth =>
    refine .undone (by decide) (henters.uncommitted fun started hprepares => ?_)
    cases hprepares with
    | call hshallow =>
      rw [hdepth] at hshallow
      cases hshallow
  | unfunded hdepth htransfer =>
    refine .undone (by decide) (henters.uncommitted fun started hprepares => ?_)
    cases hprepares with
    | call _ hmoved =>
      rw [htransfer] at hmoved
      cases hmoved
  | collided hcollision =>
    refine .undone (by decide) (henters.uncommitted fun started hprepares => ?_)
    cases hprepares with
    | create hfree =>
      rw [hcollision] at hfree
      cases hfree
  | unendowed hfree htransfer =>
    refine .undone (by decide) (henters.uncommitted fun started hprepares => ?_)
    cases hprepares with
    | create _ hmoved =>
      rw [htransfer] at hmoved
      cases hmoved
  | codeless hprepares hcode =>
    refine .codeless (committed?_eq_none fun child hstarts => ?_) hprepares
    have hsome := hstarts.code
    rw [hcode] at hsome
    cases hsome
  | @called o _ _ m m' started exit hprepares hstarts hrun =>
    refine .of_run hstarts hrun ?_ rfl fun hinner => .of_same hinner rfl rfl
    cases exit <;> simp [Order.commits, closingOf]
  | created hprepares hstarts hrun hdeposits =>
    exact .of_run hstarts hrun hdeposits.commits hdeposits.world hdeposits.tallies

/-- A frame is entered from one that works and owes what it did before. -/
lemma Enters.tallies (h : Enters ex order entered) (hex : InRange ex) :
    ∃ (outer : Executor) (gasLimit : Nat) (l : Ledger), entered = outer.enter gasLimit false ∧
      outer.frame.meter.ledger = some l ∧ Tallies 0 ex outer := by
  have hworks {paid : Executor} (hpay : order.pay ex = (.ok (), paid)) :
      ∃ l, paid.frame.meter.ledger = some l := by
    have hworking := (record_ok_working hpay).2
    rw [Meter.hasFailed] at hworking
    exact Option.isSome_iff_exists.mp (by simpa using hworking)
  cases h with
  | @call o paid hpay =>
    obtain ⟨l, hl⟩ := hworks hpay
    exact ⟨paid, _, l, rfl, hl, pay_tallies hex hpay⟩
  | @create o paid haccepted hpay =>
    obtain ⟨l, hl⟩ := hworks hpay
    have hpaid := pay_tallies hex hpay
    have hraised : Tallies 0 paid (raiseNonce o.caller paid) :=
      .of_same (hpaid.inRange hex) (ensure_marked paid.world o.caller) rfl
    exact ⟨raiseNonce o.caller paid, _, l, rfl, hl, hpaid.trans hraised⟩

lemma close_owed {outer : Executor} {gasLimit : Nat} {l : Ledger}
    (h : Keeps (outer.enter gasLimit false) last) (hl : outer.frame.meter.ledger = some l)
    (closing : Closing) :
    Proofs.owed (last.close closing) = if closing = .commit then
      Quantity.signedSaturatingAdd (Proofs.owed outer) (Proofs.owed last)
    else Proofs.owed outer := by
  have houter : Proofs.owed outer = l.refundedGas := by
    simp only [Proofs.owed, Meter.refundedGas, hl]
  rw [houter, Proofs.owed, close_meter h hl]
  cases closing <;>
    simp only [Meter.refundedGas, restoredLedger, reduceCtorEq, if_true, if_false, Proofs.owed]

lemma Prepares.tallies {started : Executor} (h : Prepares ex order entered started)
    (hentered : InRange entered) : Tallies 0 entered started := by
  refine .of_same hentered h.marked ?_
  rw [Proofs.owed, h.evolves.2]
  rfl

lemma inRange_enter (outer : Executor) (gasLimit : Nat) : InRange (outer.enter gasLimit false) :=
  .of_zero rfl

/-- A frame that is committed hands on what it owes to the frame around it, and one that is not
hands on nothing. -/
lemma close_tallies {outer : Executor} {gasLimit count : Nat} {l : Ledger}
    (hkeeps : Keeps (outer.enter gasLimit false) last) (hl : outer.frame.meter.ledger = some l)
    (houter : InRange outer) (hcommit : closing = .commit →
      Tallies count (outer.enter gasLimit false) last) (hundone : closing ≠ .commit → count = 0) :
    Tallies count outer (last.close closing) := by
  -- The meter of the frame and its changes of the world share their fate.
  have howed := close_owed hkeeps hl closing
  have hworld := close_world closing hkeeps
  rw [closedWorld] at hworld
  by_cases hclosing : closing = .commit
  · rw [if_pos hclosing] at howed hworld
    have hinner := hcommit hclosing
    have hmarks : outer.world.marked.size ≤ last.world.marked.size := hinner.marks
    have hrefund := hinner.refund
    have hlast := (hinner.inRange (inRange_enter outer gasLimit)).nonneg
    have hnonneg := houter.nonneg
    rw [signedSaturatingAdd_eq hnonneg hlast] at howed
    have hentered : Proofs.owed (outer.enter gasLimit false) = 0 := rfl
    have hsame : (outer.enter gasLimit false).world = outer.world := rfl
    rw [hentered, hsame] at hrefund
    refine ⟨by rw [hworld]; exact hmarks, ?_⟩
    rw [howed, hworld, hrefund]
    omega
  · rw [if_neg hclosing] at howed hworld
    rw [hundone hclosing]
    exact .of_same houter (by rw [hworld]) howed

lemma Refused.tallies (h : Refused ex order after) (hex : InRange ex) : Tallies 0 ex after := by
  cases h with
  | unaccepted hfault => exact (Tallies.refl hex).emit _ _
  | unpaid hpay => exact pay_tallies hex hpay

/-- A frame tallies what is cleared in it if it is committed, and nothing is kept of it if not. -/
lemma Commits.tallies {count : Configuration → Nat} (henters : Enters ex order entered)
    (hentered : InRange entered)
    (hchildren : ∀ {child halt m inner}, Starts ex order child → InRange child.executor →
      runner child.context child.machine child.executor = some (.succeed halt, m, inner) →
        Tallies (count child) child.executor inner)
    (h : Commits runner ex order entered last closing) :
    (closing = .commit → Tallies ((order.committed? runner ex).elim 0 count) entered last) ∧
      (closing ≠ .commit → (order.committed? runner ex).elim 0 count = 0) := by
  cases h with
  | undone hclosing hcommitted =>
    rw [hcommitted]
    exact ⟨fun hcommit => absurd hcommit hclosing, fun _ => rfl⟩
  | codeless hcommitted hprepares =>
    rw [hcommitted]
    exact ⟨fun _ => hprepares.tallies hentered, fun hclosing => absurd rfl hclosing⟩
  | ran hcommitted hstarts hrun hworld hlast =>
    rw [hcommitted]
    refine ⟨fun _ => ?_, fun hclosing => absurd rfl hclosing⟩
    have hprepared := (henters.prepares hstarts).tallies hentered
    have hchild := hprepared.inRange hentered
    have hran := hchildren hstarts hchild hrun
    have htallied := (hprepared.trans hran).trans (hlast (hran.inRange hchild))
    rwa [Nat.zero_add, Nat.add_zero] at htallied

/-- Carrying an order out tallies what is cleared below it in a frame that is committed. -/
theorem carryOut_tallies (hr : EvolvingRunner runner) {count : Configuration → Nat}
    (hchildren : ∀ {child halt m inner}, Starts ex order child → InRange child.executor →
      runner child.context child.machine child.executor = some (.succeed halt, m, inner) →
        Tallies (count child) child.executor inner)
    (hex : InRange ex) (h : order.carryOut runner ex = some after) :
    Tallies ((order.committed? runner ex).elim 0 count) ex after := by
  obtain hrefused | ⟨entered, last, closing, henters, hpasses, hcloses⟩ := carryOut_cases hr h
  · rw [hrefused.uncommitted]
    exact hrefused.tallies hex
  · obtain ⟨outer, gasLimit, l, rfl, hl, hpaid⟩ := henters.tallies hex
    have hkeeps := (hpasses.evolves hr).keeps
    obtain ⟨hcommit, hundone⟩ :=
      (hpasses.commits henters).tallies henters (inRange_enter outer gasLimit) hchildren
    have hclosed : Tallies ((order.committed? runner ex).elim 0 count) ex (last.close closing) := by
      have htallied :=
        hpaid.trans (close_tallies hkeeps hl (hpaid.inRange hex) hcommit hundone)
      rwa [Nat.zero_add] at htallied
    cases hcloses with
    | plain => exact hclosed
    | @founded o _ _ code hstarts =>
      have hplaced : Tallies 0 (last.close .commit)
          ((last.close .commit).onWorld fun w => w.setCode (ex.nextCreation o.caller) code) :=
        .of_same (hclosed.inRange hex) (ensure_marked _ _) rfl
      exact hclosed.trans hplaced

end Orders

/-- What a step comes to that does not end in a fault: there was nothing left to do, or a task is
performed. -/
lemma step_faultless {runner : Runner} {c : Configuration} {p : Progress}
    (h : step runner c.context c.machine c.executor = some p)
    (hp : ∀ f m ex, p ≠ .exit (.fault f) m ex) :
    (c.performance? = none ∧ Progress.executor p = c.executor) ∨
      ∃ task grown ready control done after event, Performs c task grown ready ∧
        perform runner task.operation.behaviour c.context grown ready =
          some (control, done, after) ∧
        (∀ f, control ≠ .fault f) ∧ Progress.executor p = after.emit .runtime event := by
  have hperformed {task : Task} {grown : Machine} {ready : Executor}
      (hperforms : Performs c task grown ready) :
      ∃ task grown ready control done after event, Performs c task grown ready ∧
        perform runner task.operation.behaviour c.context grown ready =
          some (control, done, after) ∧
        (∀ f, control ≠ .fault f) ∧ Progress.executor p = after.emit .runtime event := by
    obtain ⟨control, done, after, event, hperform, hexecutor, -⟩ := hperforms.performed h
    refine ⟨task, grown, ready, control, done, after, event, hperforms, hperform, ?_, hexecutor⟩
    rintro f rfl
    obtain ⟨ex, hstep⟩ := hperforms.dispatches hperform
    rw [h, Option.some.injEq] at hstep
    exact hp f done ex hstep
  cases step_stepped h with
  | refused hvetted => exact .inl ⟨by simp only [Configuration.performance?, hvetted], rfl⟩
  | unpaid hvetted hcharge => exact absurd rfl (hp _ _ _)
  | tooLarge hvetted hcharge hgrow => exact absurd rfl (hp _ _ _)
  | goesOn hvetted hcharge hgrow | ends hvetted hcharge hgrow =>
    exact .inr (hperformed (.intro hvetted hcharge hgrow))

lemma size_insert_mark (marked : Std.ExtTreeSet Address) (a : Address) :
    (marked.insert a).size = marked.size + if marked.contains a then 0 else 1 := by
  rw [Std.ExtTreeSet.size_insert]
  split <;> simp_all

/-- Apart from those that destroy an account only the steps that clear a slot are due a refund. -/
lemma Performs.due_eq {runner : Runner} {c : Configuration} {task : Task} {grown done : Machine}
    {ready after : Executor} {control : Control} (hperforms : Performs c task grown ready)
    (hperform : perform runner task.operation.behaviour c.context grown ready =
      some (control, done, after)) (hcontrol : ∀ f, control ≠ .fault f)
    (hdestroys : task.operation.behaviour ≠ .selfDestruct) :
    due c.executor c.context.address c.machine.stack task.operation.behaviour =
      if c.clears then 15000 else 0 := by
  by_cases hstores : task.operation.behaviour = .sstore
  · rw [hstores] at hperform
    obtain ⟨slot, value, taken, htake⟩ := perform_sstore hperform hcontrol
    rw [hstores]
    exact hperforms.clears hstores htake
  · rw [hperforms.not_clears hstores]
    generalize task.operation.behaviour = i at hdestroys hstores
    cases i <;> simp_all [due]

/-- A step that orders nothing tallies the slot that it clears and the mark that it makes. -/
lemma unordered_tallies {runner : Runner} {c : Configuration} {task : Task}
    {grown done : Machine} {ready after : Executor} {control : Control}
    (hc : Regular c.executor) (hrange : InRange c.executor)
    (hperforms : Performs c task grown ready)
    (hperform : perform runner task.operation.behaviour c.context grown ready =
      some (control, done, after)) (hcontrol : ∀ f, control ≠ .fault f) (horder : c.order? = none) :
    Tallies (if c.clears then 1 else 0) c.executor after := by
  obtain ⟨hframe, hmarked⟩ := perform_unordered hperforms hperform hcontrol horder
  have hafter : owed after = min Quantity.signedMax (owed c.executor +
      due c.executor c.context.address c.machine.stack task.operation.behaviour) := by
    rw [owed, hframe]
    exact hperforms.owed hc hrange
  rw [hperforms.world] at hmarked
  by_cases hdestroys : task.operation.behaviour = .selfDestruct
  · have hclears : c.clears = false := hperforms.not_clears (by rw [hdestroys]; simp)
    rw [if_pos hdestroys] at hmarked
    have hsize : after.world.marked.size = c.executor.world.marked.size +
        if c.executor.world.isMarked c.context.address then 0 else 1 := by
      rw [hmarked]
      exact size_insert_mark _ _
    rw [hdestroys, due] at hafter
    simp only [hclears, Bool.false_eq_true, if_false]
    -- The refund is due for a first mark, and only a first mark adds to their number.
    refine ⟨by omega, ?_⟩
    rw [hafter, hsize]
    by_cases hbefore : c.executor.world.isMarked c.context.address = true
    · simp only [hbefore, if_true]
      omega
    · simp only [hbefore, Bool.false_eq_true, if_false]
      omega
  · rw [if_neg hdestroys] at hmarked
    rw [hperforms.due_eq hperform hcontrol hdestroys] at hafter
    refine .of_owed hmarked ?_
    rw [hafter]
    split <;> rfl

lemma Starts.regular {ex : Executor} {order : Order} {child : Configuration}
    (h : Starts ex order child) (hex : Regular ex) : Regular child.executor := by
  obtain ⟨hinstructions, hrules⟩ := h.surroundings
  exact ⟨hinstructions ▸ hex.standard, hrules ▸ hex.priced⟩

/-- The number of slots that these steps clear. -/
def clearings (kept : List Configuration) : Nat := kept.countP Configuration.clears

def RunsTally (fuel : Nat) : Prop :=
  ∀ {c : Configuration} {halt : Halt} {m : Machine} {ex : Executor}, Regular c.executor →
    InRange c.executor → run fuel c.context c.machine c.executor = some (.succeed halt, m, ex) →
      Tallies (clearings (keptSteps fuel c)) c.executor ex

/-- A step that orders something clears nothing itself. It tallies what is cleared in the frame that
it starts if that is committed. -/
lemma ordered_tallies {fuel : Nat} (hfuel : RunsTally fuel) {c : Configuration} {p : Progress}
    {task : Task} {order : Order} {ready : Executor} (hc : Regular c.executor)
    (hrange : InRange c.executor) (horders : Orders c task order ready)
    (h : step (run fuel) c.context c.machine c.executor = some p) :
    c.clears = false ∧ Tallies ((order.committed? (run fuel) ready).elim 0 fun child =>
      clearings (keptSteps fuel child)) c.executor (Progress.executor p) := by
  obtain ⟨grown, hperforms⟩ := horders.performs
  obtain ⟨after, event, hcarried, hexecutor⟩ := horders.carriedOut h
  have hinstruction : task.operation.behaviour ≠ .sstore ∧
      due c.executor c.context.address c.machine.stack task.operation.behaviour = 0 := by
    cases horders with
    | call _ hinstruction | create _ hinstruction => rw [hinstruction]; simp [due]
  have hready : Tallies 0 c.executor ready := by
    have howed := hperforms.owed hc hrange
    rw [hinstruction.2, Int.add_zero] at howed
    have hmax := hrange.le_max
    exact .of_same hrange (by rw [hperforms.world]) (by omega)
  have hregular := hc.keeps hperforms.evolves.keeps
  have hbelow := carryOut_tallies (run_evolves fuel)
    (fun hstarts hchild hrun => hfuel (hstarts.regular hregular) hchild hrun)
    (hready.inRange hrange) hcarried
  have htallied := hready.trans hbelow
  rw [Nat.zero_add] at htallied
  rw [hexecutor]
  exact ⟨hperforms.not_clears hinstruction.1, htallied.emit .runtime event⟩

/-- A step tallies the slot that it clears itself, and what is cleared in the frame that it starts
if that is committed. -/
lemma step_tallies {fuel : Nat} (hfuel : RunsTally fuel) {c : Configuration} {p : Progress}
    (hc : Regular c.executor) (hrange : InRange c.executor)
    (h : step (run fuel) c.context c.machine c.executor = some p)
    (hp : ∀ f m ex, p ≠ .exit (.fault f) m ex) :
    Tallies ((if c.clears then 1 else 0) +
        (c.committed? (run fuel)).elim 0 fun child => clearings (keptSteps fuel child))
      c.executor (Progress.executor p) := by
  cases horder : c.order? with
  | some ordered =>
    obtain ⟨order, ready⟩ := ordered
    obtain ⟨task, horders⟩ := order?_iff.mp horder
    obtain ⟨hclears, htallied⟩ := ordered_tallies hfuel hc hrange horders h
    have hcommitted : c.committed? (run fuel) = order.committed? (run fuel) ready := by
      rw [Configuration.committed?, horder, Option.bind_some]
    simp only [hclears, hcommitted, Bool.false_eq_true, if_false, Nat.zero_add]
    exact htallied
  | none =>
    have hcommitted : c.committed? (run fuel) = none := by
      rw [Configuration.committed?, horder, Option.bind_none]
    rw [hcommitted]
    obtain ⟨hnone, hsame⟩ | ⟨task, grown, ready, control, done, after, event, hperforms, hperform,
      hcontrol, hexecutor⟩ := step_faultless h hp
    · have hclears : c.clears = false := by simp only [Configuration.clears, hnone]
      rw [hclears, hsame]
      exact .refl hrange
    · rw [hexecutor]
      exact (unordered_tallies hc hrange hperforms hperform hcontrol horder).emit .runtime event

lemma clearings_elim (child : Option Configuration) (kept : Configuration → List Configuration) :
    clearings (child.elim [] kept) = child.elim 0 fun c => clearings (kept c) := by
  cases child <;> rfl

lemma clearings_keptSteps (fuel : Nat) (c : Configuration) :
    clearings (keptSteps (fuel + 1) c) = (if c.clears then 1 else 0) +
      ((c.committed? (run fuel)).elim 0 fun child => clearings (keptSteps fuel child)) +
      match step (run fuel) c.context c.machine c.executor with
      | some (.next m ex) => clearings (keptSteps fuel ⟨c.context, m, ex⟩)
      | _ => 0 := by
  rw [← clearings_elim]
  simp only [clearings, keptSteps, List.countP_cons, List.countP_append]
  rcases step (run fuel) c.context c.machine c.executor with _ | ⟨m, ex⟩ | ⟨exit, m, ex⟩ <;>
    simp only [List.countP_nil] <;> omega

/-- A run that ends well tallies what is cleared in its kept steps. -/
theorem run_tallies (fuel : Nat) : RunsTally fuel := by
  induction fuel with
  | zero =>
    intro c halt m ex hc hrange h
    cases h
  | succ fuel ih =>
    intro c halt m ex hc hrange h
    rw [clearings_keptSteps]
    obtain hstep | ⟨next, after, hstep, hrest⟩ := run_succ h
    · rw [hstep]
      exact step_tallies ih hc hrange hstep (by simp)
    · rw [hstep]
      have hfirst : Tallies _ c.executor after := step_tallies ih hc hrange hstep (by simp)
      have hafter : Regular after := hc.keeps (step_evolves (run_evolves fuel) hstep).keeps
      exact hfirst.trans (ih (c := ⟨c.context, next, after⟩) hafter (hfirst.inRange hrange) hrest)

/-- The steps of an order carried out on its own that are kept. -/
def Order.keptSteps (allowance : Executor → Nat) (ex : Executor) (order : Order) :
    List Configuration :=
  (order.committed? (runs allowance) ex).elim [] fun child =>
    Proofs.keptSteps (allowance child.executor) child

lemma runs_tallies {allowance : Executor → Nat} {ex after : Executor} {order : Order}
    (hex : Regular ex) (hrange : InRange ex)
    (h : order.carryOut (runs allowance) ex = some after) :
    Tallies (clearings (order.keptSteps allowance ex)) ex after := by
  have hchildren {child : Configuration} {halt : Halt} {m : Machine} {inner : Executor}
      (hstarts : Starts ex order child) (hstarted : InRange child.executor)
      (hrun : runs allowance child.context child.machine child.executor =
        some (.succeed halt, m, inner)) :
      Tallies (clearings (keptSteps (allowance child.executor) child)) child.executor inner :=
    run_tallies _ (hstarts.regular hex) hstarted hrun
  rw [Order.keptSteps, clearings_elim]
  exact carryOut_tallies (runs_evolving _) hchildren hrange h

/-- A call or a creation that is run as a transaction. -/
inductive Transaction
  | call (caller address : Address) (value : Word) (input : Bytes) (gasLimit : Nat)
  | create (caller : Address) (value : Word) (initCode : Bytes) (gasLimit : Nat)

namespace Transaction

def execute (ex : Executor) : Transaction → Option Executor
  | call caller address value input gasLimit =>
    (ex.transactCall caller address value input gasLimit).map Prod.snd
  | create caller value initCode gasLimit =>
    (ex.transactCreate caller value initCode gasLimit).map Prod.snd

/-- The executor on which the transaction is carried out. -/
def start (ex : Executor) : Transaction → Executor
  | call caller address value input gasLimit =>
    (ex.reset caller gasLimit).emit .executor (.transactCall caller address value input gasLimit)
  | create caller value initCode gasLimit =>
    (ex.reset caller gasLimit).emit .executor (.transactCreate caller value initCode gasLimit
      ((ex.reset caller gasLimit).nextCreation caller))

def order : Transaction → Order
  | call caller address value input gasLimit => .call
    { codeAddress := address
      transfer := some ⟨caller, address, value⟩
      input := input
      targetGas := some gasLimit
      withStipend := false
      context := ⟨address, caller, value⟩ }
  | create caller value initCode gasLimit => .create ⟨caller, value, initCode, some gasLimit⟩

/-- The steps of the frames that are committed together with all frames around them. -/
def keptSteps (ex : Executor) (t : Transaction) : List Configuration :=
  t.order.keptSteps Executor.stepAllowance (t.start ex)

end Transaction

lemma Transaction.carriedOut {ex : Executor} (hex : Ordinary ex) (t : Transaction) :
    ∃ carried event, t.order.carryOut (runs Executor.stepAllowance) (t.start ex) = some carried ∧
      t.execute ex = some (carried.emit .executor event) := by
  cases t with
  | call caller address value input gasLimit =>
    have hstart : Ordinary (ex.reset caller gasLimit) := ⟨hex.standard, hex.metered⟩
    obtain ⟨outcome, carried, hended⟩ := call_ends (runs_endsBelow _)
      (hstart.keeps (keeps_emit _ .executor (.transactCall caller address value input gasLimit)))
      address (some ⟨caller, address, value⟩) input (some gasLimit) false ⟨address, caller, value⟩
      (Nat.lt_succ_self _)
    refine ⟨carried, .exit outcome.exit outcome.output,
      congrArg (Option.map Prod.snd) hended, ?_⟩
    have hnested : ((ex.reset caller gasLimit).emit .executor (.transactCall caller address value
        input gasLimit)).nestedCall address (some ⟨caller, address, value⟩) input (some gasLimit)
          false ⟨address, caller, value⟩ = some (outcome, carried) := hended
    simp only [Transaction.execute, Executor.transactCall, hnested, Option.map_some]
  | create caller value initCode gasLimit =>
    have hstart : Ordinary (ex.reset caller gasLimit) := ⟨hex.standard, hex.metered⟩
    obtain ⟨outcome, carried, hended⟩ := create_ends (runs_endsBelow _)
      (hstart.keeps (keeps_emit _ .executor (.transactCreate caller value initCode gasLimit
        ((ex.reset caller gasLimit).nextCreation caller))))
      caller value initCode (some gasLimit) (Nat.lt_succ_self _)
    refine ⟨carried, .exit outcome.exit outcome.output,
      congrArg (Option.map Prod.snd) hended, ?_⟩
    have hnested : ((ex.reset caller gasLimit).emit .executor (.transactCreate caller value
        initCode gasLimit ((ex.reset caller gasLimit).nextCreation caller))).nestedCreation caller
          value initCode (some gasLimit) = some (outcome, carried) := hended
    simp only [Transaction.execute, Executor.transactCreate, hnested, Option.map_some]

lemma Transaction.start_frame (ex : Executor) (t : Transaction) :
    owed (t.start ex) = 0 ∧ (t.start ex).world = ex.world ∧
      (t.start ex).instructions = ex.instructions ∧ (t.start ex).rules = ex.rules := by
  have hemitted (outer : Executor) (event : Event) (houter : owed outer = 0) :
      owed (outer.emit .executor event) = 0 ∧ (outer.emit .executor event).world = outer.world ∧
        (outer.emit .executor event).instructions = outer.instructions ∧
          (outer.emit .executor event).rules = outer.rules := by
    have hkeeps := keeps_emit outer .executor event
    exact ⟨(owed_emit _ _ _).trans houter, emit_world _ _ _, hkeeps.instructions, hkeeps.rules⟩
  cases t with
  | call caller | create caller => exact hemitted (ex.reset caller _) _ rfl

/-- When a transaction returns, the meter around it owes what the accounts marked in the world and
the slots cleared in kept steps give, as far as its counter goes. -/
theorem refunds_follow_frames {ex : Executor} (hs : IsStandard ex.instructions)
    (hr : ForkPriced ex.rules) (hmarked : ex.world.marked = ∅) (t : Transaction) :
    ∃ after, t.execute ex = some after ∧
      after.frame.meter.refundedGas = min Quantity.signedMax
        (24000 * after.world.marked.size + 15000 * clearings (t.keptSteps ex)) := by
  obtain ⟨carried, event, hcarried, hexecuted⟩ := t.carriedOut ⟨hs, hr.metered⟩
  obtain ⟨howed, hworld, hinstructions, hrules⟩ := t.start_frame ex
  have hrange : InRange (t.start ex) := .of_zero howed
  have hregular : Regular (t.start ex) := ⟨hinstructions ▸ hs, hrules ▸ hr⟩
  have htallies := runs_tallies hregular hrange hcarried
  have hunmarked : (t.start ex).world.marked.size = 0 := by
    rw [hworld, hmarked]
    rfl
  have hrefund := htallies.refund
  rw [howed, hunmarked] at hrefund
  refine ⟨_, hexecuted, ?_⟩
  rw [emit_frame, emit_world, Transaction.keptSteps]
  exact hrefund.trans (by omega)

/-- An account whose code has another one clear a slot and fail, clears a slot of its own, and
destroys itself. -/
def clearingExecutor : Executor :=
  let calling : Bytes :=
    #[0x60, 0, 0x60, 0, 0x60, 0, 0x60, 0, 0x60, 0, 0x60, 0xc, 0x61, 0xff, 0xff, 0xf1,
      0x60, 0, 0x60, 0, 0x55, 0x30, 0xff]
  let accounts : Std.ExtTreeMap Address Account :=
    (Std.ExtTreeMap.empty.insert 0xb ⟨0, 0, (∅ : Storage).insert 0 7, calling⟩).insert 0xc
      ⟨0, 0, (∅ : Storage).insert 0 7, #[0x60, 0, 0x60, 0, 0x55, 0xfe]⟩
  .new (.ofAccounts accounts) .homestead .zero

theorem refunds_follow_frames_clearingExecutor :
    ∃ after, (Transaction.call 0xa 0xb 0 #[] 100000).execute clearingExecutor = some after ∧
      after.world.marked.size = 1 ∧ after.frame.meter.refundedGas = 39000 := by
  have hinstructions : clearingExecutor.instructions = .homestead := rfl
  obtain ⟨after, hexecuted, hrefund⟩ := @refunds_follow_frames clearingExecutor
    (.inr hinstructions) ⟨.homestead, rfl⟩ rfl (.call 0xa 0xb 0 #[] 100000)
  have hmarks : ((Transaction.call 0xa 0xb 0 #[] 100000).execute clearingExecutor).map
      (fun ex => ex.world.marked.size) = some 1 := by decide +kernel
  have hclearings : clearings ((Transaction.call 0xa 0xb 0 #[] 100000).keptSteps
      clearingExecutor) = 1 := by decide +kernel
  rw [hexecuted, Option.map_some, Option.some.injEq] at hmarks
  rw [hmarks, hclearings] at hrefund
  exact ⟨after, hexecuted, hmarks, hrefund⟩

end ContractMachine.Proofs
