import ContractMachine.Message
import ContractMachine.Proofs.AccountLookup
import ContractMachine.Proofs.FailedFrames
import ContractMachine.Proofs.FrameFaults
import ContractMachine.Proofs.Termination

/-!
# How a message is executed

The transfer of a transaction's own value is the only one in it that can run out of funds and
show in its outcome, because frames keep the faults of what they call. Around the execution the
world can be rolled back to where the message found it, and the meter of the transaction stays
within the gas limit of the message.
-/

namespace ContractMachine.Proofs

lemma ensureAccount_balance (ex : Executor) (a b : Address) :
    (ex.ensureAccount a).world.balance b = ex.world.balance b := by
  unfold Executor.ensureAccount
  by_cases h : ex.world.exists? a = true
  · rw [if_pos h]
  · rw [if_neg h]
    exact createAccount_balance ex.world a b

/-- The runner ends frames in no fault other than their own. -/
def OwnFaultRunner (runner : Runner) : Prop :=
  ∀ (context : Context) (m m' : Machine) (ex ex' : Executor) (f : Fault),
    runner context m ex = some (.fault f, m', ex') → FrameFault f

lemma runs_ownFault (allowance : Executor → Nat) : OwnFaultRunner (runs allowance) :=
  fun _ _ _ _ _ _ h => run_ownFault h

lemma ownFaults_executorRecord (e : Entry) :
    OwnFaults (Executor.record e : Action Executor Unit) :=
  fun ex => ownFaults_record ex.rules e ex.frame.meter

lemma ownFaults_recordAll (entries : List Entry) :
    OwnFaults (Executor.recordAll entries : Action Executor Unit) := by
  induction entries with
  | nil => exact ownFaults_pure ()
  | cons e rest ih => exact (ownFaults_executorRecord e).bind fun _ => ih

lemma ne_outOfFund {f : Fault} (hf : FrameFault f) : f ≠ .outOfFund := by
  rintro rfl
  exact hf

lemma record_ne_outOfFund {e : Entry} {ex mid : Executor} {f : Fault}
    (h : Executor.record e ex = (.error f, mid)) : f ≠ .outOfFund := by
  have hown := ownFaults_executorRecord e ex
  rw [h] at hown
  exact ne_outOfFund (hown f rfl)

lemma leave_ne_outOfFund {closing : Closing} {ex after : Executor} {f : Fault}
    (h : Executor.leave closing ex = (.error f, after)) : f ≠ .outOfFund := by
  unfold Executor.leave at h
  cases hw : ex.waiting with
  | nil =>
    simp only [hw, Prod.mk.injEq, Except.error.injEq] at h
    rw [← h.1]
    simp
  | cons p rest =>
    obtain ⟨parent, snapshot⟩ := p
    simp only [hw] at h
    have hown := ownFaults_recordAll (ex.frame.giveBack closing)
      { ex with
        frame := parent
        waiting := rest
        world := if closing = .commit then ex.world else ex.world.revertTo snapshot }
    rw [h] at hown
    exact ne_outOfFund (hown f rfl)

/-- Closing a frame does not run out of funds if the frame did not. -/
lemma closeCall_ne_outOfFund {exit : Exit} {output : Bytes} {ex ex' : Executor}
    {outcome : CallOutcome} (hexit : exit ≠ .fault .outOfFund)
    (h : Executor.closeCall exit output ex = (outcome, ex')) :
    outcome.exit ≠ .fault .outOfFund := by
  cases exit with
  | succeed halt =>
    cases hleave : Executor.leave .commit ex with
    | mk result after =>
      cases result with
      | error f =>
        simp only [Executor.closeCall, hleave, Prod.mk.injEq] at h
        rw [← h.1]
        simpa using leave_ne_outOfFund hleave
      | ok u =>
        simp only [Executor.closeCall, hleave, Prod.mk.injEq] at h
        rw [← h.1]
        simp
  | fault f | revert =>
    simp only [Executor.closeCall, Prod.mk.injEq] at h
    rw [← h.1]
    exact hexit

lemma depositCode_ne_outOfFund {created : Address} {halt : Halt} {code : Bytes}
    {ex ex' : Executor} {outcome : Creation}
    (h : Executor.depositCode created halt code ex = (outcome, ex')) :
    outcome.exit ≠ .fault .outOfFund := by
  unfold Executor.depositCode at h
  cases hpay : Executor.record (.deposit code.size) ex with
  | mk result paid =>
    cases hleave : Executor.leave .commit paid with
    | mk left after =>
      cases result with
      | ok u =>
        cases left with
        | ok u =>
          simp only [hpay, hleave, Prod.mk.injEq] at h
          rw [← h.1]
          simp
        | error f =>
          simp only [hpay, hleave, Prod.mk.injEq] at h
          rw [← h.1]
          simpa using leave_ne_outOfFund hleave
      | error f =>
        by_cases hfails : paid.rules.failsOnUnpaidCode = true
        · simp only [hpay, if_pos hfails, Prod.mk.injEq] at h
          rw [← h.1]
          simpa using record_ne_outOfFund hpay
        · cases left with
          | ok u =>
            simp only [hpay, if_neg hfails, hleave, Prod.mk.injEq] at h
            rw [← h.1]
            simp
          | error f =>
            simp only [hpay, if_neg hfails, hleave, Prod.mk.injEq] at h
            rw [← h.1]
            simpa using leave_ne_outOfFund hleave

lemma closeCreation_ne_outOfFund {created : Address} {exit : Exit} {output : Bytes}
    {ex ex' : Executor} {outcome : Creation} (hexit : exit ≠ .fault .outOfFund)
    (h : Executor.closeCreation created exit output ex = (outcome, ex')) :
    outcome.exit ≠ .fault .outOfFund := by
  cases exit with
  | succeed halt => exact depositCode_ne_outOfFund h
  | fault f | revert =>
    simp only [Executor.closeCreation, Prod.mk.injEq] at h
    rw [← h.1]
    exact hexit

lemma runner_ne_outOfFund {runner : Runner} (hf : OwnFaultRunner runner) {context : Context}
    {m m' : Machine} {ex ex' : Executor} {exit : Exit}
    (h : runner context m ex = some (exit, m', ex')) : exit ≠ .fault .outOfFund := by
  rintro rfl
  exact hf _ _ _ _ _ _ h

lemma enterCall_outOfFund {ex ex' : Executor} {code input : Bytes} {gasLimit : Nat}
    {t : Transfer} {address : Address} {outcome : CallOutcome}
    (h : ex.enterCall code input gasLimit (some t) address = .over outcome ex')
    (hexit : outcome.exit = .fault .outOfFund) : ex.world.balance t.source < t.value := by
  unfold Executor.enterCall at h
  by_cases hdeep : (ex.enter gasLimit false).isTooDeep = true
  · simp only [hdeep, if_true, Opening.over.injEq] at h
    simp [← h.1] at hexit
  · simp only [hdeep, Executor.transferIfAny] at h
    obtain ⟨hshort, ht⟩ | ⟨-, ht⟩ := transfer_cases t
      ((ex.enter gasLimit false).ensureAccount address)
    · rw [ensureAccount_balance] at hshort
      exact hshort
    · by_cases hcode : code.isEmpty = true
      · simp only [ht, hcode, if_true, Bool.false_eq_true, if_false, Opening.over.injEq] at h
        simp [← h.1] at hexit
      · simp [ht, hcode] at h

/-- A call runs out of funds only if the source of its transfer cannot pay. -/
lemma call_outOfFund {runner : Runner} (hf : OwnFaultRunner runner)
    {ex ex' : Executor} {codeAddress : Address} {t : Transfer} {input : Bytes}
    {targetGas : Option Nat} {withStipend : Bool} {context : Context} {outcome : CallOutcome}
    (h : ex.call runner codeAddress (some t) input targetGas withStipend context =
      some (outcome, ex')) (hexit : outcome.exit = .fault .outOfFund) :
    ex.world.balance t.source < t.value := by
  obtain hover | ⟨m, entered, exit, m', inner, -, hrun, hclose⟩ := call_cases h
  · obtain ⟨event, f, mid, hpay, hopening⟩ | ⟨event, mid, hpay, hopening⟩ :=
      openCall_cases ex codeAddress (some t) input targetGas withStipend context
    · rw [hopening, Opening.over.injEq] at hover
      rw [← hover.1] at hexit
      exact absurd (Exit.fault.inj hexit) (record_ne_outOfFund hpay)
    · rw [← pay_world hpay]
      exact enterCall_outOfFund (hopening.symm.trans hover) hexit
  · exact absurd hexit (closeCall_ne_outOfFund (runner_ne_outOfFund hf hrun) hclose)

lemma enterCreation_outOfFund {ex ex' : Executor} {caller address : Address} {value : Word}
    {initCode : Bytes} {gasLimit : Nat} {outcome : Creation}
    (h : ex.enterCreation caller address value initCode gasLimit = .over outcome ex')
    (hexit : outcome.exit = .fault .outOfFund) : ex.world.balance caller < value := by
  unfold Executor.enterCreation at h
  by_cases hcollision : (ex.enter gasLimit false).isCollision address = true
  · simp only [hcollision, if_true, Opening.over.injEq] at h
    simp [← h.1] at hexit
  · obtain ⟨hshort, ht⟩ | ⟨-, ht⟩ := transfer_cases ⟨caller, address, value⟩
      ((ex.enter gasLimit false).onWorld fun w => w.createAccount address)
    · simp only [Executor.onWorld, createAccount_balance] at hshort
      exact hshort
    · simp [hcollision, ht] at h

lemma creationFault_outOfFund {ex : Executor} {caller : Address} {value : Word}
    (h : ex.creationFault caller value = some .outOfFund) : ex.world.balance caller < value := by
  unfold Executor.creationFault at h
  repeat' split at h
  all_goals simp_all

/-- A creation runs out of funds only if its creator cannot pay for its value. -/
lemma create_outOfFund {runner : Runner} (hf : OwnFaultRunner runner)
    {ex ex' : Executor} {caller : Address} {value : Word} {initCode : Bytes}
    {targetGas : Option Nat} {outcome : Creation}
    (h : ex.create runner caller value initCode targetGas = some (outcome, ex'))
    (hexit : outcome.exit = .fault .outOfFund) : ex.world.balance caller < value := by
  obtain hover | ⟨m, entered, exit, m', inner, -, hrun, hclose⟩ := create_cases h
  · obtain ⟨event, f, hfault, hopening⟩ | ⟨event, f, mid, hfault, hpay, hopening⟩ |
      ⟨event, mid, hfault, hpay, hopening⟩ :=
      openCreation_cases ex caller (ex.nextCreation caller) value initCode targetGas
    · rw [hopening, Opening.over.injEq] at hover
      rw [← hover.1] at hexit
      rw [Exit.fault.inj hexit] at hfault
      exact creationFault_outOfFund hfault
    · rw [hopening, Opening.over.injEq] at hover
      rw [← hover.1] at hexit
      exact absurd (Exit.fault.inj hexit) (record_ne_outOfFund hpay)
    · have hshort := enterCreation_outOfFund (hopening.symm.trans hover) hexit
      simp only [raiseNonce, Executor.onWorld, setNonce_balance, pay_world hpay] at hshort
      exact hshort
  · exact absurd hexit (closeCreation_ne_outOfFund (runner_ne_outOfFund hf hrun) hclose)

/-- Outside of all frames, a call whose source cannot pay runs out of funds without running. -/
lemma call_insufficient (runner : Runner) {ex : Executor} (codeAddress : Address) {t : Transfer}
    (input : Bytes) (targetGas : Option Nat) (withStipend : Bool) (context : Context)
    (hworking : ex.frame.meter.hasFailed = false) (hdepth : ex.frame.depth = none)
    (hshort : ex.world.balance t.source < t.value) :
    ∃ outcome ex', ex.call runner codeAddress (some t) input targetGas withStipend context =
      some (outcome, ex') ∧ outcome.exit = .fault .outOfFund := by
  obtain ⟨event, f, mid, hpay, -⟩ | ⟨event, mid, hpay, hopening⟩ :=
    openCall_cases ex codeAddress (some t) input targetGas withStipend context
  · exact absurd hpay (record_cost_ne_error hworking (Nat.min_le_right _ _))
  · generalize mid.callGasLimit (min (targetGas.getD ex.gas) ex.gas) withStipend (some t)
      = gasLimit at hopening
    have hdeep : (mid.enter gasLimit false).isTooDeep = false := by
      have hmid : mid.frame.depth = none := (pay_keeps hpay).depth.trans hdepth
      simp [Executor.isTooDeep, Executor.enter, Frame.child, hmid]
    have htransfer : Executor.transfer t ((mid.enter gasLimit false).ensureAccount
        context.address) = (.error .outOfFund,
          (mid.enter gasLimit false).ensureAccount context.address) := by
      apply if_pos
      rw [ensureAccount_balance]
      show mid.world.balance t.source < t.value
      rw [pay_world hpay]
      exact hshort
    unfold Executor.call
    rw [hopening]
    simp only [Executor.enterCall, hdeep, Executor.transferIfAny, htransfer, Bool.false_eq_true,
      if_false]
    exact ⟨_, _, rfl, rfl⟩

/-- Outside of all frames, so does a creation whose creator cannot pay. -/
lemma create_insufficient (runner : Runner) {ex : Executor} {caller : Address} {value : Word}
    (initCode : Bytes) (targetGas : Option Nat) (hdepth : ex.frame.depth = none)
    (hshort : ex.world.balance caller < value) :
    ∃ outcome ex', ex.create runner caller value initCode targetGas = some (outcome, ex') ∧
      outcome.exit = .fault .outOfFund := by
  have hfault : ex.creationFault caller value = some .outOfFund := by
    simp [Executor.creationFault, hdepth, hshort]
  unfold Executor.create Executor.openCreation
  simp only [creationFault_emit, hfault]
  exact ⟨_, _, rfl, rfl⟩

/-- The executor on which the transaction of a message starts. -/
def messageStart (ex : Executor) (m : Message) : Executor :=
  match m.recipient with
  | none => ex.reset m.sender m.gasLimit
  | some recipient =>
    ((ex.ensureAccount recipient).onWorld fun w => w.setNonce m.sender (w.nonce m.sender + 1)).reset
      m.sender m.gasLimit

lemma messageStart_extends (ex : Executor) (m : Message) :
    Extends ex.world (messageStart ex m).world := by
  unfold messageStart
  cases m.recipient with
  | none => exact Extends.refl ex.world
  | some recipient =>
    have hensure := (ensureAccount_evolves recipient ex).keeps.world
    exact hensure.trans (extends_setNonce _ m.sender _)

lemma messageStart_balance (ex : Executor) (m : Message) (a : Address) :
    (messageStart ex m).world.balance a = ex.world.balance a := by
  unfold messageStart
  cases m.recipient with
  | none => rfl
  | some recipient =>
    show ((ex.ensureAccount recipient).world.setNonce m.sender _).balance a = ex.world.balance a
    rw [setNonce_balance, ensureAccount_balance]

lemma messageStart_frame (ex : Executor) (m : Message) :
    (messageStart ex m).frame = { Frame.outermost m.gasLimit with readOnly := ex.readOnly } := by
  unfold messageStart
  cases m.recipient with
  | none => rfl
  | some recipient =>
    have hreadOnly := (ensureAccount_evolves recipient ex).keeps.readOnly
    simp [Executor.reset, Executor.onWorld, hreadOnly]

lemma messageStart_rules (ex : Executor) (m : Message) : (messageStart ex m).rules = ex.rules := by
  unfold messageStart
  cases m.recipient with
  | none => rfl
  | some recipient => exact (ensureAccount_evolves recipient ex).keeps.rules

lemma Ordinary.messageStart {ex : Executor} (hex : Ordinary ex) (m : Message) :
    Ordinary (messageStart ex m) := by
  unfold Proofs.messageStart
  cases m.recipient with
  | none => exact ⟨hex.standard, hex.metered⟩
  | some recipient =>
    have hensured := hex.keeps (ensureAccount_evolves recipient ex).keeps
    exact ⟨hensured.standard, hensured.metered⟩

/-- The transaction of a message that ended: a creation or a call on the executor on which the
transaction starts. -/
inductive Transacted (ex : Executor) (m : Message) (outcome : Creation) : Executor → Prop
  | created {first last : Event} {after : Executor}
    (h : ((messageStart ex m).emit .executor first).create (runs Executor.stepAllowance) m.sender
      m.value m.data (some m.gasLimit) = some (outcome, after)) :
    Transacted ex m outcome (after.emit .executor last)
  | called {recipient : Address} {result : CallOutcome} {first last : Event} {after : Executor}
    (h : ((messageStart ex m).emit .executor first).call (runs Executor.stepAllowance) recipient
      (some ⟨m.sender, recipient, m.value⟩) m.data (some m.gasLimit) false
      ⟨recipient, m.sender, m.value⟩ = some (result, after))
    (hexit : outcome.exit = result.exit) : Transacted ex m outcome (after.emit .executor last)

lemma messageStart_create {ex : Executor} {m : Message} (h : m.recipient = none) :
    messageStart ex m = ex.reset m.sender m.gasLimit := by
  simp only [messageStart, h]

lemma messageStart_call {ex : Executor} {m : Message} {recipient : Address}
    (h : m.recipient = some recipient) :
    messageStart ex m = ((ex.ensureAccount recipient).onWorld fun w =>
      w.setNonce m.sender (w.nonce m.sender + 1)).reset m.sender m.gasLimit := by
  simp only [messageStart, h]

lemma executeMessage_transacted {ex after : Executor} {m : Message} {outcome : Creation}
    (h : ex.executeMessage m = some (outcome, after)) : Transacted ex m outcome after := by
  unfold Executor.executeMessage at h
  cases hrecipient : m.recipient with
  | none =>
    simp only [hrecipient, Executor.transactCreate] at h
    rw [← messageStart_create hrecipient] at h
    split at h
    · cases h
    · next result ended hcreate =>
      simp only [Option.some.injEq, Prod.mk.injEq] at h
      obtain ⟨rfl, rfl⟩ := h
      exact .created hcreate
  | some recipient =>
    simp only [hrecipient, Executor.transactCall] at h
    rw [← messageStart_call hrecipient] at h
    split at h
    · cases h
    · next result ended hcall =>
      simp only [Option.map_some, Option.some.injEq, Prod.mk.injEq] at h
      obtain ⟨rfl, rfl⟩ := h
      exact .called hcall rfl

/-- The transaction of a message evolves from its start. -/
theorem Transacted.evolves {ex after : Executor} {m : Message} {outcome : Creation}
    (h : Transacted ex m outcome after) : Evolves m.sender (messageStart ex m) after := by
  have hr : EvolvingRunner (runs Executor.stepAllowance) := runs_evolving _
  cases h with
  | created h => exact ((Evolves.emit _ _ _ _).trans (create_evolves hr h)).trans (.emit _ _ _ _)
  | called h hexit =>
    exact ((Evolves.emit _ _ _ _).trans (call_evolves hr _ h)).trans (.emit _ _ _ _)

/-- The transaction of a message runs out of funds only if its sender cannot pay for its value. -/
theorem Transacted.outOfFund {ex after : Executor} {m : Message} {outcome : Creation}
    (h : Transacted ex m outcome after) (hexit : outcome.exit = .fault .outOfFund) :
    ex.world.balance m.sender < m.value := by
  have hf := runs_ownFault Executor.stepAllowance
  rw [← messageStart_balance ex m m.sender]
  cases h with
  | @created first last ended h =>
    have hshort := create_outOfFund hf h hexit
    rw [emit_world] at hshort
    exact hshort
  | called h hsame =>
    have hshort := call_outOfFund hf h (hsame.symm.trans hexit)
    rw [emit_world] at hshort
    exact hshort

/-- The transaction of a message ends if its creation or its call does. -/
lemma executeMessage_of_transaction {ex : Executor} {m : Message} (P : Exit → Prop)
    (hcreate : ∀ event, ∃ outcome after, ((messageStart ex m).emit .executor event).create
      (runs Executor.stepAllowance) m.sender m.value m.data (some m.gasLimit) =
        some (outcome, after) ∧ P outcome.exit)
    (hcall : ∀ recipient event, ∃ outcome after, ((messageStart ex m).emit .executor event).call
      (runs Executor.stepAllowance) recipient (some ⟨m.sender, recipient, m.value⟩) m.data
        (some m.gasLimit) false ⟨recipient, m.sender, m.value⟩ = some (outcome, after) ∧
          P outcome.exit) :
    ∃ outcome after, ex.executeMessage m = some (outcome, after) ∧ P outcome.exit := by
  unfold Executor.executeMessage
  cases hrecipient : m.recipient with
  | none =>
    simp only [Executor.transactCreate]
    rw [← messageStart_create hrecipient]
    obtain ⟨outcome, after, hended, hexit⟩ := hcreate (.transactCreate m.sender m.value m.data
      m.gasLimit ((messageStart ex m).nextCreation m.sender))
    refine ⟨outcome, after.emit .executor (.exit outcome.exit outcome.output), ?_, hexit⟩
    have hnested : ((messageStart ex m).emit .executor (.transactCreate m.sender m.value m.data
        m.gasLimit ((messageStart ex m).nextCreation m.sender))).nestedCreation m.sender m.value
          m.data (some m.gasLimit) = some (outcome, after) := hended
    simp only [hnested]
  | some recipient =>
    simp only [Executor.transactCall]
    rw [← messageStart_call hrecipient]
    obtain ⟨outcome, after, hended, hexit⟩ := hcall recipient (.transactCall m.sender recipient
      m.value m.data m.gasLimit)
    refine ⟨⟨outcome.exit, none, outcome.output⟩,
      after.emit .executor (.exit outcome.exit outcome.output), ?_, hexit⟩
    have hnested : ((messageStart ex m).emit .executor (.transactCall m.sender recipient m.value
        m.data m.gasLimit)).nestedCall recipient (some ⟨m.sender, recipient, m.value⟩) m.data
          (some m.gasLimit) false ⟨recipient, m.sender, m.value⟩ = some (outcome, after) := hended
    simp only [hnested, Option.map_some]

/-- A sender who cannot pay for the value has the transaction run out of funds. -/
theorem executeMessage_insufficient {ex : Executor} {m : Message}
    (hshort : ex.world.balance m.sender < m.value) :
    ∃ outcome after, ex.executeMessage m = some (outcome, after) ∧
      outcome.exit = .fault .outOfFund := by
  rw [← messageStart_balance ex m m.sender] at hshort
  have hframe := messageStart_frame ex m
  have hdepth (event : Event) : ((messageStart ex m).emit .executor event).frame.depth = none := by
    rw [emit_frame, hframe]
    rfl
  have hworking (event : Event) :
      ((messageStart ex m).emit .executor event).frame.meter.hasFailed = false := by
    rw [emit_frame, hframe]
    rfl
  apply executeMessage_of_transaction (· = .fault .outOfFund)
  · intro event
    apply create_insufficient _ m.data (some m.gasLimit) (hdepth event)
    rw [emit_world]
    exact hshort
  · intro recipient event
    apply call_insufficient _ recipient m.data (some m.gasLimit) false
      ⟨recipient, m.sender, m.value⟩ (hworking event) (hdepth event)
    rw [emit_world]
    exact hshort

lemma runs_endsBelow (bound : Nat) : EndsBelow (runs Executor.stepAllowance) bound := by
  intro context machine inner hinner _
  apply run_ends context machine hinner
  unfold Executor.stepAllowance
  omega

/-- Under metered rules the transaction of every message ends. -/
theorem executeMessage_ends {ex : Executor} (hex : Ordinary ex) (m : Message) :
    ∃ outcome after, ex.executeMessage m = some (outcome, after) := by
  have hstart (event : Event) : Ordinary ((messageStart ex m).emit .executor event) :=
    (hex.messageStart m).keeps (keeps_emit _ .executor event)
  obtain ⟨outcome, after, h, -⟩ : ∃ outcome after, ex.executeMessage m = some (outcome, after) ∧
      True := by
    apply executeMessage_of_transaction fun _ => True
    · intro event
      obtain ⟨outcome, after, hended⟩ := create_ends (runs_endsBelow _) (hstart event) m.sender
        m.value m.data (some m.gasLimit) (Nat.lt_succ_self _)
      exact ⟨outcome, after, hended, trivial⟩
    · intro recipient event
      obtain ⟨outcome, after, hended⟩ := call_ends (runs_endsBelow _) (hstart event) recipient
        (some ⟨m.sender, recipient, m.value⟩) m.data (some m.gasLimit) false
        ⟨recipient, m.sender, m.value⟩ (Nat.lt_succ_self _)
      exact ⟨outcome, after, hended, trivial⟩
  exact ⟨outcome, after, h⟩

end ContractMachine.Proofs
