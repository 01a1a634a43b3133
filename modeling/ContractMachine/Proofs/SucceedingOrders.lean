import ContractMachine.Proofs.Refunds

/-!
# Orders that succeed

A call succeeds if it is paid for and its code is empty or ends well; a creation also has to pay for
the code that it leaves. Both then come to a frame that is committed, and conversely what such a
frame leaves says what they give.
-/

namespace ContractMachine.Proofs

/-- How carrying the order out ends. -/
def Order.exit? (runner : Runner) (ex : Executor) : Order → Option Exit
  | call o => (ex.call runner o.codeAddress o.transfer o.input o.targetGas o.withStipend
      o.context).map fun result => result.1.exit
  | create o => (ex.create runner o.caller o.value o.initCode o.targetGas).map
      fun result => result.1.exit

lemma exit?_covers {runner runner' : Runner} (hr : Covers runner' runner) {ex : Executor}
    {order : Order} {exit : Exit} (h : order.exit? runner ex = some exit) :
    order.exit? runner' ex = some exit := by
  cases order with
  | call o =>
    obtain ⟨result, hcall, rfl⟩ := Option.map_eq_some_iff.mp h
    rw [Order.exit?, call_covers hr hcall, Option.map_some]
  | create o =>
    obtain ⟨result, hcreate, rfl⟩ := Option.map_eq_some_iff.mp h
    rw [Order.exit?, create_covers hr hcreate, Option.map_some]

/-- The frame of an order, entered as `entered`, has come to `last` and succeeds. -/
inductive Succeeds (runner : Runner) (ex : Executor) :
    Order → Executor → Halt → Bytes → Executor → Prop
  | codeless {o : CallOrder} {entered last : Executor}
      (hprepares : Prepares ex (.call o) entered last)
      (hcode : (ex.world.code o.codeAddress).isEmpty = true) :
    Succeeds runner ex (.call o) entered .stopped #[] last
  | called {o : CallOrder} {entered started last : Executor} {m m' : Machine} {halt : Halt}
      (hstarts : Starts ex (.call o) ⟨o.context, m, started⟩)
      (hrun : runner o.context m started = some (.succeed halt, m', last)) :
    Succeeds runner ex (.call o) entered halt m'.returnValue last
  | created {o : CreationOrder} {entered started inner last : Executor} {m m' : Machine}
      {halt : Halt}
      (hstarts : Starts ex (.create o) ⟨⟨ex.nextCreation o.caller, o.caller, o.value⟩, m, started⟩)
      (hrun : runner ⟨ex.nextCreation o.caller, o.caller, o.value⟩ m started =
        some (.succeed halt, m', inner))
      (hpay : Executor.record (.deposit m'.returnValue.size) inner = (.ok (), last)) :
    Succeeds runner ex (.create o) entered halt m'.returnValue last

section Orders

variable {runner : Runner} {ex entered last after : Executor} {halt : Halt} {output : Bytes}

lemma Enters.leaves {order : Order} (henters : Enters ex order entered)
    (hkeeps : Keeps entered last) :
    Executor.leave .commit last = (.ok (), last.close .commit) := by
  obtain ⟨l, hl⟩ := henters.working
  obtain ⟨-, outer, rfl, -, hmeter⟩ := henters.meter hl
  exact leave_ok .commit hkeeps (by rw [hmeter]; rfl)

lemma Succeeds.keeps {order : Order} (hr : EvolvingRunner runner)
    (henters : Enters ex order entered) (h : Succeeds runner ex order entered halt output last) :
    Keeps entered last := by
  cases h with
  | codeless hprepares hcode => exact hprepares.evolves.1.keeps
  | called hstarts hrun => exact ((henters.prepares hstarts).evolves.1.trans (hr hrun)).keeps
  | @created _ _ _ inner _ _ m' _ hstarts hrun hpay =>
    have hpaid := keeps_record (.deposit m'.returnValue.size) inner
    rw [hpay] at hpaid
    exact ((henters.prepares hstarts).evolves.1.trans (hr hrun)).keeps.trans hpaid

lemma Succeeds.call {o : CallOrder} (hr : EvolvingRunner runner)
    (henters : Enters ex (.call o) entered)
    (h : Succeeds runner ex (.call o) entered halt output last) :
    ex.call runner o.codeAddress o.transfer o.input o.targetGas o.withStipend o.context =
      some (⟨.succeed halt, output⟩, last.close .commit) := by
  have hleaves := henters.leaves (h.keeps hr henters)
  cases h with
  | codeless hprepares hcode =>
    simp only [Executor.call, openCall_prepared henters hprepares, if_pos hcode]
  | called hstarts hrun =>
    cases hstarts with
    | call hopening => simp only [Executor.call, hopening, hrun, Executor.closeCall, hleaves]

/-- A call that succeeds was paid for, and its frame succeeds. -/
lemma call_succeeds {o : CallOrder} {outcome : CallOutcome} (hr : EvolvingRunner runner)
    (h : ex.call runner o.codeAddress o.transfer o.input o.targetGas o.withStipend o.context =
      some (outcome, after)) (hsucceeds : outcome.exit.isSuccess = true) :
    ∃ entered halt output last, Enters ex (.call o) entered ∧
      Succeeds runner ex (.call o) entered halt output last ∧
      outcome = ⟨.succeed halt, output⟩ ∧ after = last.close .commit := by
  have hnever {f : Fault} {output : Bytes} (houtcome : ⟨.fault f, output⟩ = outcome) : False := by
    rw [← houtcome] at hsucceeds
    cases hsucceeds
  cases hpay : (Order.call o).pay ex with
  | mk result paid =>
    cases result with
    | error f =>
      simp only [Executor.call, openCall_unpaid hpay, Option.some.injEq, Prod.mk.injEq] at h
      exact (hnever h.1).elim
    | ok u =>
      have henters := Enters.call hpay
      obtain ⟨-, hopening⟩ | ⟨-, f, last, -, hopening⟩ | ⟨started, hprepares, hopening⟩ :=
        openCall_paid henters
      · simp only [Executor.call, hopening, Option.some.injEq, Prod.mk.injEq] at h
        exact (hnever h.1).elim
      · simp only [Executor.call, hopening, Option.some.injEq, Prod.mk.injEq] at h
        exact (hnever h.1).elim
      · by_cases hcode : (ex.world.code o.codeAddress).isEmpty = true
        · rw [if_pos hcode] at hopening
          simp only [Executor.call, hopening, Option.some.injEq, Prod.mk.injEq] at h
          exact ⟨_, _, _, _, henters, .codeless hprepares hcode, h.1.symm, h.2.symm⟩
        · rw [if_neg hcode] at hopening
          simp only [Executor.call, hopening] at h
          split at h
          · cases h
          · next exit m' last hrun =>
            have hleaves := henters.leaves (hprepares.evolves.1.trans (hr hrun)).keeps
            cases exit with
            | succeed halt =>
              simp only [Executor.closeCall, hleaves, Option.some.injEq, Prod.mk.injEq] at h
              exact ⟨_, _, _, _, henters, .called (.call hopening) hrun, h.1.symm, h.2.symm⟩
            | fault f | revert =>
              simp only [Executor.closeCall, Option.some.injEq, Prod.mk.injEq] at h
              rw [← h.1] at hsucceeds
              cases hsucceeds

lemma Succeeds.create {o : CreationOrder} (hr : EvolvingRunner runner)
    (henters : Enters ex (.create o) entered)
    (h : Succeeds runner ex (.create o) entered halt output last) :
    ex.create runner o.caller o.value o.initCode o.targetGas =
      some (⟨.succeed halt, some (ex.nextCreation o.caller), output⟩,
        (last.close .commit).onWorld fun w => w.setCode (ex.nextCreation o.caller) output) := by
  have hleaves := henters.leaves (h.keeps hr henters)
  cases h with
  | created hstarts hrun hpay =>
    cases hstarts with
    | create hopening =>
      simp only [Executor.create, hopening, hrun, Executor.closeCreation, Executor.depositCode,
        hpay, hleaves]

/-- Closing the frame of a creation gives a success only if the frame ended well and can pay for
its code. -/
lemma closeCreation_succeeds {order : Order} {created : Address} {exit : Exit} {inner : Executor}
    {outcome : Creation} (henters : Enters ex order entered) (hkeeps : Keeps entered inner)
    (h : Executor.closeCreation created exit output inner = (outcome, after))
    (hsucceeds : outcome.exit.isSuccess = true) :
    ∃ halt last, exit = .succeed halt ∧
      Executor.record (.deposit output.size) inner = (.ok (), last) ∧
      outcome = ⟨.succeed halt, some created, output⟩ ∧
      after = (last.close .commit).onWorld fun w => w.setCode created output := by
  cases exit with
  | fault f | revert =>
    simp only [Executor.closeCreation, Prod.mk.injEq] at h
    rw [← h.1] at hsucceeds
    cases hsucceeds
  | succeed halt =>
    have hpaid := keeps_record (.deposit output.size) inner
    simp only [Executor.closeCreation, Executor.depositCode] at h
    cases hpay : Executor.record (.deposit output.size) inner with
    | mk result last =>
      rw [hpay] at hpaid
      have hleaves := henters.leaves (hkeeps.trans hpaid)
      cases result with
      | ok u =>
        simp only [hpay, hleaves, Prod.mk.injEq] at h
        exact ⟨halt, last, rfl, rfl, h.1.symm, h.2.symm⟩
      | error f =>
        simp only [hpay, hleaves] at h
        split at h
        · cases h
          cases hsucceeds
        · cases h
          cases hsucceeds

/-- A creation that succeeds was paid for, and its frame succeeds. -/
lemma create_succeeds {o : CreationOrder} {outcome : Creation} (hr : EvolvingRunner runner)
    (h : ex.create runner o.caller o.value o.initCode o.targetGas = some (outcome, after))
    (hsucceeds : outcome.exit.isSuccess = true) :
    ∃ entered halt output last, Enters ex (.create o) entered ∧
      Succeeds runner ex (.create o) entered halt output last ∧
      outcome = ⟨.succeed halt, some (ex.nextCreation o.caller), output⟩ ∧
      after = (last.close .commit).onWorld fun w =>
        w.setCode (ex.nextCreation o.caller) output := by
  have hnever {f : Fault} {created : Option Address} {output : Bytes}
      (houtcome : ⟨.fault f, created, output⟩ = outcome) : False := by
    rw [← houtcome] at hsucceeds
    cases hsucceeds
  cases haccepted : ex.creationFault o.caller o.value with
  | some f =>
    simp only [Executor.create, openCreation_refused haccepted, Option.some.injEq,
      Prod.mk.injEq] at h
    exact (hnever h.1).elim
  | none =>
    cases hpay : (Order.create o).pay ex with
    | mk result paid =>
      cases result with
      | error f =>
        simp only [Executor.create, openCreation_unpaid haccepted hpay, Option.some.injEq,
          Prod.mk.injEq] at h
        exact (hnever h.1).elim
      | ok u =>
        have henters := Enters.create haccepted hpay
        obtain ⟨-, hopening⟩ | ⟨-, f, last, -, hopening⟩ | ⟨started, hprepares, hopening⟩ :=
          openCreation_paid henters
        · simp only [Executor.create, hopening, Option.some.injEq, Prod.mk.injEq] at h
          exact (hnever h.1).elim
        · simp only [Executor.create, hopening, Option.some.injEq, Prod.mk.injEq] at h
          exact (hnever h.1).elim
        · simp only [Executor.create, hopening] at h
          split at h
          · cases h
          · next exit m' inner hrun =>
            have hinner := (hprepares.evolves.1.trans (hr hrun)).keeps
            obtain ⟨halt, last, rfl, hdeposit, houtcome, hafter⟩ :=
              closeCreation_succeeds henters hinner (Option.some.inj h) hsucceeds
            exact ⟨_, _, _, _, henters, .created (.create hopening) hrun hdeposit, houtcome,
              hafter⟩

end Orders

end ContractMachine.Proofs
