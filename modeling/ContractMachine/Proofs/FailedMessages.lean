import ContractMachine.Proofs.NestedGas
import ContractMachine.Proofs.StackEffects
import ContractMachine.Proofs.ValueConservation

/-!
# What a failed message costs

No instruction of a standard set reverts, so a transaction that fails has its frame discarded: its
gas is gone, its refunds are dropped, and its changes are taken back. What stays is what was done
before the frame was entered, the accounts of the sender and the recipient and the sender's nonce.
-/

namespace ContractMachine.Proofs

/-- What an operation declares ends no frame with a revert, unless it is flagged to do so. -/
lemma conclude_ne_revert {task : Task} {control : Control} {grown m last : Machine} {exit : Exit}
    (hreverts : task.operation.reverts = false)
    (hdeclared : Declared task.operation grown control m)
    (h : task.conclude control m = (some exit, last)) : exit ≠ .revert := by
  rintro rfl
  cases hdeclared with
  | goesOn hhalts hstack =>
    simp only [Task.conclude, hhalts, Bool.false_eq_true, if_false] at h
    split at h <;> cases h
  | ends hhalts => simp [Task.conclude, hreverts] at h
  | astray hjump => cases h

lemma step_ne_revert {runner : Runner} {context : Context} {m last : Machine} {ex after : Executor}
    {exit : Exit} (hs : IsStandard ex.instructions)
    (h : step runner context m ex = some (.exit exit last after)) : exit ≠ .revert := by
  cases step_stepped h with
  | refused hvetted =>
    rintro rfl
    unfold Executor.admit at hvetted
    split at hvetted
    · cases hvetted
    · simp only at hvetted
      split at hvetted <;> cases hvetted
  | unpaid | tooLarge => simp
  | ends hvetted hcharge hgrow hperform hconclude =>
    obtain ⟨-, -, hstandard⟩ := task_of_standard hs hvetted
    have hperforms : Performs ⟨context, m, ex⟩ _ _ _ := .intro hvetted hcharge hgrow
    exact conclude_ne_revert (by rw [hstandard]; exact standard_reverts _)
      (hperforms.declared hs hperform) hconclude

theorem run_ne_revert {fuel : Nat} {context : Context} {m last : Machine} {ex after : Executor}
    {exit : Exit} (hs : IsStandard ex.instructions)
    (h : run fuel context m ex = some (exit, last, after)) : exit ≠ .revert := by
  induction fuel generalizing m ex with
  | zero => cases h
  | succ fuel ih =>
    obtain hstep | ⟨next, mid, hstep, hrest⟩ := run_succ h
    · exact step_ne_revert hs hstep
    · have hkeeps : Keeps ex mid := (step_evolves (run_evolves fuel) hstep).keeps
      exact ih (hkeeps.instructions ▸ hs) hrest

/-- The world after what an order does before its frame is entered. -/
def Order.entryWorld (ex : Executor) : Order → World
  | call _ => ex.world
  | create o => ex.world.setNonce o.caller (ex.world.nonce o.caller + 1)

/-- The frame of the order was entered, and discarded in the end. -/
inductive Discarded (ex : Executor) (order : Order) : Executor → Prop
  | intro {entered last : Executor} (henters : Enters ex order entered)
      (hkeeps : Keeps entered last) : Discarded ex order (last.close .discard)

section Discarded

variable {ex entered after : Executor} {order : Order}

/-- A working meter can always pay for the gas that is handed over. -/
lemma pay_ne_error (hex : ex.frame.meter.hasFailed = false) {f : Fault} :
    order.pay ex ≠ (.error f, after) := by
  cases order with
  | call o => exact record_cost_ne_error hex (Nat.min_le_right _ _)
  | create o => exact record_cost_ne_error hex (Nat.min_le_left _ _)

lemma Enters.world (h : Enters ex order entered) : entered.world = order.entryWorld ex := by
  cases h with
  | @call o paid hpay =>
    show paid.world = _
    rw [pay_world hpay]
    rfl
  | @create o paid haccepted hpay =>
    show paid.world.setNonce o.caller (paid.world.nonce o.caller + 1) = _
    rw [pay_world hpay]
    rfl

lemma Discarded.world (h : Discarded ex order after) : after.world = order.entryWorld ex := by
  obtain ⟨henters, hkeeps⟩ := h
  obtain ⟨self, outer, gasLimit, -, rfl⟩ := id henters.around
  rw [close_world _ hkeeps, closedWorld, if_neg (by simp)]
  exact henters.world

lemma Discarded.meter {l : Ledger} (h : Discarded ex order after)
    (hl : ex.frame.meter.ledger = some l) :
    after.frame.meter =
      ⟨ex.frame.meter.limit, some { l with usedGas := l.usedGas + order.gas ex }⟩ := by
  obtain ⟨henters, hkeeps⟩ := h
  obtain ⟨-, outer, rfl, -, hmeter⟩ := henters.meter hl
  rw [close_meter hkeeps (congrArg Meter.ledger hmeter) .discard, hmeter]
  rfl

end Discarded

section Failing

variable {runner : Runner} {ex after : Executor}

lemma transferIfAny_outOfFund {t : Option Transfer} {ex last : Executor} {f : Fault}
    (h : Executor.transferIfAny t ex = (.error f, last)) : f = .outOfFund := by
  cases t with
  | none => cases h
  | some t =>
    obtain ⟨-, hshort⟩ | ⟨-, hmoved⟩ := transfer_cases t ex
    · rw [Executor.transferIfAny, hshort] at h
      cases h
      rfl
    · rw [Executor.transferIfAny, hmoved] at h
      cases h

/-- The frame of a transaction is never too deep. -/
lemma Enters.not_tooDeep {entered : Executor} {order : Order} (h : Enters ex order entered)
    (hdepth : ex.frame.depth = none) : entered.isTooDeep = false := by
  obtain ⟨self, outer, gasLimit, houter, rfl⟩ := h.around
  have houterDepth := houter.keeps.depth.trans hdepth
  simp [Executor.isTooDeep, Executor.enter, Frame.child, houterDepth]

/-- The runner reverts no frame of a standard instruction set. -/
def NeverReverts (runner : Runner) : Prop :=
  ∀ {context m ex exit last after}, IsStandard ex.instructions →
    runner context m ex = some (exit, last, after) → exit ≠ .revert

lemma runs_neverReverts (allowance : Executor → Nat) : NeverReverts (runs allowance) :=
  fun hs h => run_ne_revert hs h

/-- The call of a transaction that fails has its frame discarded, unless the transfer of its value
ran out of funds. -/
lemma call_discarded (hr : EvolvingRunner runner) (hnever : NeverReverts runner)
    (hs : IsStandard ex.instructions) (hdepth : ex.frame.depth = none)
    (hworking : ex.frame.meter.hasFailed = false) {o : CallOrder} {outcome : CallOutcome}
    (h : ex.call runner o.codeAddress o.transfer o.input o.targetGas o.withStipend o.context =
      some (outcome, after)) (hfailed : outcome.exit.isSuccess = false)
    (hfunds : outcome.exit ≠ .fault .outOfFund) :
    outcome.output = #[] ∧ Discarded ex (.call o) after := by
  cases hpay : (Order.call o).pay ex with
  | mk result paid =>
    cases result with
    | error f => exact absurd hpay (pay_ne_error hworking)
    | ok u =>
      have henters := Enters.call hpay
      obtain ⟨hdeep, -⟩ | ⟨-, f, last, htransfer, hopening⟩ | ⟨started, hprepares, hopening⟩ :=
        openCall_paid henters
      · rw [henters.not_tooDeep hdepth] at hdeep
        cases hdeep
      · simp only [Executor.call, hopening, Option.some.injEq, Prod.mk.injEq] at h
        rw [← h.1, transferIfAny_outOfFund htransfer] at hfunds
        exact absurd rfl hfunds
      · split at hopening
        · simp only [Executor.call, hopening, Option.some.injEq, Prod.mk.injEq] at h
          rw [← h.1] at hfailed
          cases hfailed
        · have hstarts := Starts.call hopening
          simp only [Executor.call, hopening] at h
          split at h
          · cases h
          · next exit last inner hrun =>
            have hkeeps := (hprepares.evolves.1.trans (hr hrun)).keeps
            cases exit with
            | revert => exact absurd rfl (hnever (hstarts.surroundings.1 ▸ hs) hrun)
            | fault f =>
              cases h
              exact ⟨rfl, .intro henters hkeeps⟩
            | succeed halt =>
              rw [Executor.closeCall, leave_ok .commit hkeeps (record_ok_working hpay).2] at h
              cases h
              cases hfailed

lemma depositCode_discarded {outer inner : Executor} {gasLimit : Nat} {created : Address}
    {halt : Halt} {code : Bytes} {outcome : Creation} (h : Keeps (outer.enter gasLimit false) inner)
    (houter : outer.frame.meter.hasFailed = false)
    (hclose : Executor.depositCode created halt code inner = (outcome, after))
    (hfailed : outcome.exit.isSuccess = false)
    (hstored : outcome.exit ≠ .fault .codeStoreOutOfGas) :
    outcome.output = #[] ∧ outcome.created = none ∧
      ∃ last, Keeps inner last ∧ after = last.close .discard := by
  unfold Executor.depositCode at hclose
  cases hpay : Executor.record (.deposit code.size) inner with
  | mk result paid =>
    have hkeeps := keeps_record (.deposit code.size) inner
    rw [hpay] at hkeeps
    cases result with
    | ok u =>
      simp only [hpay, leave_ok .commit (h.trans hkeeps) houter, Prod.mk.injEq] at hclose
      rw [← hclose.1] at hfailed
      cases hfailed
    | error f =>
      by_cases hfails : paid.rules.failsOnUnpaidCode = true
      · simp only [hpay, if_pos hfails, close_failMeter (h.trans hkeeps), Prod.mk.injEq] at hclose
        obtain ⟨rfl, rfl⟩ := hclose
        exact ⟨rfl, rfl, paid, hkeeps, rfl⟩
      · simp only [hpay, if_neg hfails, leave_ok .commit (h.trans hkeeps) houter,
          Prod.mk.injEq] at hclose
        rw [← hclose.1] at hstored
        exact absurd rfl hstored

/-- The creation of a transaction that fails has its frame discarded, unless it was refused, or is
let go without paying for its code. -/
lemma create_discarded (hr : EvolvingRunner runner) (hnever : NeverReverts runner)
    (hs : IsStandard ex.instructions) (hworking : ex.frame.meter.hasFailed = false)
    {o : CreationOrder} (haccepted : ex.creationFault o.caller o.value = none) {outcome : Creation}
    (h : ex.create runner o.caller o.value o.initCode o.targetGas = some (outcome, after))
    (hfailed : outcome.exit.isSuccess = false) (hfunds : outcome.exit ≠ .fault .outOfFund)
    (hstored : outcome.exit ≠ .fault .codeStoreOutOfGas) :
    outcome.output = #[] ∧ outcome.created = none ∧ Discarded ex (.create o) after := by
  cases hpay : (Order.create o).pay ex with
  | mk result paid =>
    cases result with
    | error f => exact absurd hpay (pay_ne_error hworking)
    | ok u =>
      have henters := Enters.create haccepted hpay
      obtain ⟨hcollision, hopening⟩ | ⟨-, f, last, htransfer, hopening⟩ |
        ⟨started, hprepares, hopening⟩ := openCreation_paid henters
      · simp only [Executor.create, hopening, Option.some.injEq, Prod.mk.injEq] at h
        obtain ⟨rfl, rfl⟩ := h
        exact ⟨rfl, rfl, .intro henters (.refl _)⟩
      · simp only [Executor.create, hopening, Option.some.injEq, Prod.mk.injEq] at h
        have hshort := @transferIfAny_outOfFund (some _) _ _ _ htransfer
        rw [← h.1, hshort] at hfunds
        exact absurd rfl hfunds
      · have hstarts := Starts.create hopening
        simp only [Executor.create, hopening] at h
        split at h
        · cases h
        · next exit last inner hrun =>
          have hkeeps := (hprepares.evolves.1.trans (hr hrun)).keeps
          cases exit with
          | revert => exact absurd rfl (hnever (hstarts.surroundings.1 ▸ hs) hrun)
          | fault f =>
            simp only [Executor.closeCreation, close_failMeter hkeeps] at h
            cases h
            exact ⟨rfl, rfl, .intro henters hkeeps⟩
          | succeed halt =>
            simp only [Executor.closeCreation, Option.some.injEq] at h
            obtain ⟨houtput, hcreated, last, hlast, rfl⟩ := depositCode_discarded hkeeps
              (record_ok_working hpay).2 h hfailed hstored
            exact ⟨houtput, hcreated, .intro henters (hkeeps.trans hlast)⟩

end Failing

lemma ensureAccount_account? (a b : Address) (ex : Executor) :
    (ex.ensureAccount a).world.account? b =
      if a = b then some (ex.world.view a) else ex.world.account? b := by
  unfold Executor.ensureAccount
  by_cases hexists : ex.world.exists? a = true
  · rw [if_pos hexists]
    by_cases hab : a = b
    · rw [if_pos hab, ← hab, account?_of_exists hexists]
    · rw [if_neg hab]
  · have habsent : ex.world.account? a = none := account?_eq_none (by simpa using hexists)
    rw [if_neg hexists, Executor.onWorld, createAccount_account?]
    simp only [World.nonce, World.balance, view_eq_getD, habsent, Option.getD_none]

lemma ensureAccount_view (a b : Address) (ex : Executor) :
    (ex.ensureAccount a).world.view b = ex.world.view b := by
  rw [view_eq_getD, ensureAccount_account?]
  by_cases hab : a = b
  · rw [if_pos hab, hab, Option.getD_some]
  · rw [if_neg hab, view_eq_getD]

lemma ensureAccount_trail (a : Address) (ex : Executor) :
    (ex.ensureAccount a).world.trail = ex.world.trail := by
  unfold Executor.ensureAccount
  split <;> rfl

/-- The executor with accounts for the sender and the recipient of a message. -/
def accountsReady (ex : Executor) (m : Message) : Executor :=
  match m.recipient with
  | none => ex.ensureAccount m.sender
  | some recipient => (ex.ensureAccount m.sender).ensureAccount recipient

lemma accountsReady_trail (ex : Executor) (m : Message) :
    (accountsReady ex m).world.trail = ex.world.trail := by
  unfold accountsReady
  cases m.recipient with
  | none => exact ensureAccount_trail _ _
  | some recipient => exact (ensureAccount_trail _ _).trans (ensureAccount_trail _ _)

lemma accountsReady_marked (ex : Executor) (m : Message) :
    (accountsReady ex m).world.marked = ex.world.marked := by
  unfold accountsReady
  cases m.recipient with
  | none => exact ensureAccount_marked _ _
  | some recipient => exact (ensureAccount_marked _ _).trans (ensureAccount_marked _ _)

lemma accountsReady_account? (ex : Executor) (m : Message) (a : Address) :
    (accountsReady ex m).world.account? a =
      if a = m.sender ∨ m.recipient = some a then some (ex.world.view a)
      else ex.world.account? a := by
  unfold accountsReady
  cases m.recipient with
  | none =>
    rw [ensureAccount_account?]
    by_cases ha : m.sender = a
    · simp [ha]
    · simp [ha, Ne.symm ha]
  | some recipient =>
    rw [ensureAccount_account?, ensureAccount_account?, ensureAccount_view]
    by_cases hrecipient : recipient = a
    · simp [hrecipient]
    · by_cases ha : m.sender = a
      · simp [ha, hrecipient]
      · simp [ha, Ne.symm ha, hrecipient]

lemma accountsReady_view (ex : Executor) (m : Message) (a : Address) :
    (accountsReady ex m).world.view a = ex.world.view a := by
  rw [view_eq_getD, accountsReady_account?]
  split
  · rfl
  · rfl

/-- What a message does to the world before its frame is entered: it sees to the accounts of the
sender and the recipient, and raises the nonce of the sender. -/
lemma messageOrder_entryWorld (ex : Executor) (m : Message) :
    (messageOrder m).entryWorld (messageReady (ex.ensureAccount m.sender) m) =
      (accountsReady ex m).world.setNonce m.sender
        ((accountsReady ex m).world.nonce m.sender + 1) := by
  unfold messageOrder messageReady messageStart accountsReady
  cases m.recipient with
  | none =>
    simp only [Order.entryWorld, emit_world]
    rfl
  | some recipient =>
    simp only [Order.entryWorld, emit_world]
    rfl

lemma messageReady_surroundings (ex : Executor) (m : Message) :
    (messageReady (ex.ensureAccount m.sender) m).instructions = ex.instructions ∧
      (messageReady (ex.ensureAccount m.sender) m).rules = ex.rules := by
  have hsender := (ensureAccount_evolves m.sender ex).keeps
  have hready : Keeps (messageStart (ex.ensureAccount m.sender) m)
      (messageReady (ex.ensureAccount m.sender) m) := keeps_emit _ _ _
  have hstart : (messageStart (ex.ensureAccount m.sender) m).instructions = ex.instructions ∧
      (messageStart (ex.ensureAccount m.sender) m).rules = ex.rules := by
    unfold messageStart
    cases m.recipient with
    | none => exact ⟨hsender.instructions, hsender.rules⟩
    | some recipient =>
      have hrecipient := (ensureAccount_evolves recipient (ex.ensureAccount m.sender)).keeps
      exact ⟨hrecipient.instructions.trans hsender.instructions,
        hrecipient.rules.trans hsender.rules⟩
  exact ⟨hready.instructions.trans hstart.1, hready.rules.trans hstart.2⟩

lemma messageReady_frame (ex : Executor) (m : Message) :
    (messageReady ex m).frame = { Frame.outermost m.gasLimit with readOnly := ex.readOnly } := by
  rw [messageReady, emit_frame, messageStart_frame]

lemma messageReady_gas (ex : Executor) (m : Message) :
    (messageReady ex m).gas = m.gasLimit := by
  rw [Executor.gas, messageReady_frame]
  rfl

lemma messageOrder_gas (ex : Executor) (m : Message) :
    (messageOrder m).gas (messageReady ex m) = m.gasLimit := by
  unfold messageOrder
  cases m.recipient with
  | none => simp only [Order.gas, Option.getD_some, messageReady_gas, Nat.min_self]
  | some recipient => simp only [Order.gas, Option.getD_some, messageReady_gas, Nat.min_self]

lemma creationFault_of_accepted {ex : Executor} {pool : GasPool} {m : Message}
    (h : rejection? ex.world pool m = none) (hrecipient : m.recipient = none) :
    (messageReady (ex.ensureAccount m.sender) m).creationFault m.sender m.value = none := by
  have hworld : (messageReady (ex.ensureAccount m.sender) m).world =
      (ex.ensureAccount m.sender).world := by
    rw [messageReady, emit_world, messageStart_create hrecipient]
    rfl
  have hdepth : (messageReady (ex.ensureAccount m.sender) m).frame.depth = none := by
    rw [messageReady_frame]
    rfl
  obtain ⟨-, hnonce, -, hfunds⟩ := rejection?_eq_none h
  rw [creationFault_eq_none]
  rintro (⟨depth, hsome, -⟩ | hshort | hmax)
  · rw [hdepth] at hsome
    cases hsome
  · rw [hworld, ensureAccount_balance] at hshort
    exact hfunds hshort
  · rw [hworld, World.nonce, ensureAccount_view] at hmax
    exact hnonce hmax

lemma messageReady_working (ex : Executor) (m : Message) :
    (messageReady ex m).frame.meter.hasFailed = false := by
  rw [messageReady_frame]
  rfl

/-- The order of an accepted message is not refused. -/
lemma not_refused_of_accepted {ex after : Executor} {pool : GasPool} {m : Message}
    (h : rejection? ex.world pool m = none) :
    ¬Refused (messageReady (ex.ensureAccount m.sender) m) (messageOrder m) after := by
  intro hrefused
  generalize horder : messageOrder m = order at hrefused
  cases hrefused with
  | unpaid hpay => exact pay_ne_error (messageReady_working _ m) hpay
  | unaccepted hfault =>
    unfold messageOrder at horder
    cases hrecipient : m.recipient with
    | some recipient =>
      rw [hrecipient] at horder
      cases horder
    | none =>
      rw [hrecipient] at horder
      cases horder
      rw [creationFault_of_accepted h hrecipient] at hfault
      cases hfault

/-- An accepted message that fails has its frame discarded. -/
lemma executeMessage_discarded {ex after : Executor} {pool : GasPool} {m : Message}
    {outcome : Creation} (hs : IsStandard ex.instructions)
    (haccepted : rejection? ex.world pool m = none)
    (h : (ex.ensureAccount m.sender).executeMessage m = some (outcome, after))
    (hfailed : outcome.exit.isSuccess = false) (hfunds : outcome.exit ≠ .fault .outOfFund)
    (hstored : outcome.exit ≠ .fault .codeStoreOutOfGas) :
    outcome.output = #[] ∧ outcome.created = none ∧ ∃ last carried,
      Discarded (messageReady (ex.ensureAccount m.sender) m) (messageOrder m) carried ∧
        after = carried.emit .executor last := by
  have hr : EvolvingRunner (runs Executor.stepAllowance) := runs_evolving _
  have hnever : NeverReverts (runs Executor.stepAllowance) := runs_neverReverts _
  have hstandard : IsStandard (messageReady (ex.ensureAccount m.sender) m).instructions := by
    rw [(messageReady_surroundings ex m).1]
    exact hs
  have hframe := messageReady_frame (ex.ensureAccount m.sender) m
  have hworking := messageReady_working (ex.ensureAccount m.sender) m
  obtain ⟨last, carried, rfl,
    ⟨hrecipient, hcreate⟩ | ⟨recipient, result, hrecipient, rfl, hcall⟩⟩ := executeMessage_cases h
  · obtain ⟨houtput, hcreated, hdiscarded⟩ := @create_discarded _ _ _ hr hnever hstandard hworking
      ⟨m.sender, m.value, m.data, some m.gasLimit⟩ (creationFault_of_accepted haccepted hrecipient)
      _ hcreate hfailed hfunds hstored
    refine ⟨houtput, hcreated, last, carried, ?_, rfl⟩
    simp only [messageOrder, hrecipient]
    exact hdiscarded
  · obtain ⟨houtput, hdiscarded⟩ := @call_discarded _ _ _ hr hnever hstandard (by rw [hframe]; rfl)
      hworking ⟨recipient, some ⟨m.sender, recipient, m.value⟩, m.data, some m.gasLimit, false,
        ⟨recipient, m.sender, m.value⟩⟩ _ hcall hfailed hfunds
    refine ⟨houtput, rfl, last, carried, ?_, rfl⟩
    simp only [messageOrder, hrecipient]
    exact hdiscarded

lemma Discarded.usedGas {ex carried : Executor} {m : Message} {last : Event}
    {used : Nat} (h : Discarded (messageReady ex m) (messageOrder m) carried)
    (hused : (carried.emit .executor last).usedGas? = some used) : used = m.gasLimit := by
  have hframe := messageReady_frame ex m
  have hledger : (messageReady ex m).frame.meter.ledger = some ⟨0, 0, 0⟩ := by
    rw [hframe]
    rfl
  have hmeter := h.meter hledger
  rw [messageOrder_gas] at hmeter
  obtain ⟨-, rfl⟩ := Executor.usedGas?_eq_some_iff.mp hused
  simp [emit_frame, hmeter, Meter.totalUsedGas, Meter.refundedGas]

/-- An accepted message that fails for another reason than that the code of the new contract is
not paid for uses up its gas and leaves no output, no contract and no log. It leaves the accounts
as they were, but for an account for its sender and its recipient and the raised nonce of the
sender. -/
theorem failed_messages_cost_their_gas {ex : Executor} (hs : IsStandard ex.instructions)
    (hmarked : ex.world.marked = ∅) (m : Message) (pool : GasPool) :
    (Metered ex.rules → ex.rules.maxRefundQuotient ≠ 0 →
      ∃ applied, ex.applyMessage m pool = some applied) ∧
    ∀ applied receipt, ex.applyMessage m pool = some applied → applied.result = .ok receipt →
      receipt.failed = true → receipt.exit ≠ .fault .codeStoreOutOfGas →
        receipt.usedGas = m.gasLimit ∧ receipt.output = #[] ∧ receipt.created = none ∧
        applied.executor.world.logs = ex.world.logs ∧
        ∀ a, applied.executor.world.account? a =
          if a = m.sender then some { ex.world.view a with nonce := ex.world.nonce a + 1 }
          else if m.recipient = some a then some (ex.world.view a)
          else ex.world.account? a := by
  refine ⟨fun hm hquotient => applyMessage_ends ⟨hs, hm⟩ hquotient m pool, ?_⟩
  intro applied receipt happlied hresult hfailed hstored
  obtain ⟨haccepted, outcome, after, used, hexecuted, hfunds, hused, rfl, hexecutor⟩ :=
    applyMessage_accepted happlied hresult
  obtain ⟨houtput, hcreated, last, carried, hdiscarded, rfl⟩ := executeMessage_discarded hs
    haccepted hexecuted (by simpa using hfailed) hfunds hstored
  have hworld : (carried.emit .executor last).world = (accountsReady ex m).world.setNonce m.sender
      ((accountsReady ex m).world.nonce m.sender + 1) := by
    rw [emit_world, hdiscarded.world, messageOrder_entryWorld]
  refine ⟨hdiscarded.usedGas hused, houtput, hcreated, ?_, ?_⟩
  · rw [hexecutor, World.logs, World.logs]
    show (carried.emit .executor last).world.trail.reverse = _
    rw [hworld, setNonce_trail, accountsReady_trail]
  · intro a
    have hunmarked : (carried.emit .executor last).world.isMarked a = false := by
      rw [hworld, World.isMarked, setNonce_marked, accountsReady_marked, hmarked]
      exact Std.ExtTreeSet.contains_empty
    rw [hexecutor]
    show (carried.emit .executor last).world.settle.account? a = _
    rw [settle_account?, hunmarked, hworld, setNonce_account?, accountsReady_account?, World.nonce,
      accountsReady_view]
    by_cases ha : m.sender = a
    · simp [ha, World.nonce]
    · simp [ha, Ne.symm ha]

/-- The account that writes to a slot and then fails is called by a sender without an account. -/
theorem failed_messages_cost_their_gas_spoilingExecutor :
    ∃ applied receipt, spoilingExecutor.applyMessage ⟨0xd, some 0xb, 0, 0, true, #[], 90000⟩
        (.ofNat 100000) = some applied ∧ applied.result = .ok receipt ∧
      receipt.exit = .fault (.invalidCode ⟨0xfe⟩) ∧ receipt.usedGas = 90000 ∧
      applied.executor.world.account? 0xd = some ⟨1, 0, ∅, #[]⟩ ∧
      applied.executor.world.account? 0xb = some ⟨0, 0, ∅, spoilingCode⟩ := by
  have hinstructions : spoilingExecutor.instructions = .frontier := rfl
  obtain ⟨hends, hcost⟩ := @failed_messages_cost_their_gas spoilingExecutor (.inl hinstructions) rfl
    ⟨0xd, some 0xb, 0, 0, true, #[], 90000⟩ (.ofNat 100000)
  obtain ⟨applied, happlied⟩ := hends (metered_ofFork .frontier) (by decide)
  have hexit : (spoilingExecutor.applyMessage ⟨0xd, some 0xb, 0, 0, true, #[], 90000⟩
      (.ofNat 100000)).bind (fun applied => applied.result.toOption.map fun receipt =>
        (receipt.failed, receipt.exit)) = some (true, .fault (.invalidCode ⟨0xfe⟩)) := by
    decide +kernel
  rw [happlied, Option.bind_some, Option.map_eq_some_iff] at hexit
  obtain ⟨receipt, hresult, hreceipt⟩ := hexit
  obtain ⟨hfailed, hreason⟩ := Prod.mk.inj hreceipt
  have hok : applied.result = .ok receipt := by
    cases hr : applied.result with
    | error rejection =>
      rw [hr] at hresult
      cases hresult
    | ok receipt' =>
      rw [hr] at hresult
      cases hresult
      rfl
  obtain ⟨husedGas, -, -, -, haccounts⟩ := hcost applied receipt happlied hok hfailed
    (by simp [hreason])
  have hcalled : spoilingExecutor.world.view 0xb = ⟨0, 0, ∅, spoilingCode⟩ := by decide +kernel
  have hsender : spoilingExecutor.world.view 0xd = ⟨0, 0, ∅, #[]⟩ := by decide +kernel
  refine ⟨applied, receipt, happlied, hok, hreason, husedGas, ?_, ?_⟩
  · rw [haccounts, if_pos rfl, World.nonce, hsender]
    rfl
  · rw [haccounts, if_neg (by decide), if_pos rfl, hcalled]

end ContractMachine.Proofs
