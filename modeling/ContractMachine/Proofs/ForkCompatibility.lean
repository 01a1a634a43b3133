import ContractMachine.Proofs.ExecutionSteps
import ContractMachine.Proofs.FailedMessages

/-!
# What the forks agree on

The second fork adds an instruction and has creations fail that do not pay for their code. Where an
execution comes to neither, it runs in lockstep under both forks: each function of the executor
commutes with taking the second fork back, the functions that run frames by induction on the steps
allowed.
-/

namespace ContractMachine.Proofs

/-- The rules with what the second fork changes taken back. -/
def frontierRules (rules : Rules) : Rules :=
  { rules with
    fork := .frontier
    failsOnUnpaidCode := false }

/-- The executor under the first fork. -/
def asFrontier (ex : Executor) : Executor :=
  { ex with
    rules := frontierRules ex.rules
    instructions := .frontier }

@[simp] lemma asFrontier_world (ex : Executor) : (asFrontier ex).world = ex.world := rfl

@[simp] lemma asFrontier_frame (ex : Executor) : (asFrontier ex).frame = ex.frame := rfl

@[simp] lemma asFrontier_waiting (ex : Executor) : (asFrontier ex).waiting = ex.waiting := rfl

@[simp] lemma asFrontier_trace (ex : Executor) : (asFrontier ex).trace = ex.trace := rfl

@[simp] lemma asFrontier_gas (ex : Executor) : (asFrontier ex).gas = ex.gas := rfl

/-- The action does the same under the first fork. -/
def Agrees {α : Type} (x : Action Executor α) : Prop :=
  ∀ ex, x (asFrontier ex) = ((x ex).1, asFrontier (x ex).2)

lemma cost_frontier (rules : Rules) (price : Price) :
    price.cost (frontierRules rules) = price.cost rules := by
  cases price <;> rfl

lemma refund_frontier (rules : Rules) (price : Price) :
    price.refund (frontierRules rules) = price.refund rules := by
  cases price <;> rfl

lemma bill_frontier (rules : Rules) (paid : Nat) (price : Price) (memoryEnd : Option Nat) :
    Meter.bill (frontierRules rules) paid price memoryEnd =
      Meter.bill rules paid price memoryEnd := by
  simp only [Meter.bill, cost_frontier, refund_frontier]

lemma meterRecord_frontier (rules : Rules) (entry : Entry) :
    Meter.record (frontierRules rules) entry = Meter.record rules entry := by
  cases entry with
  | priced price memoryEnd =>
    funext m
    simp only [Meter.record, Meter.pay, bill_frontier]
  | _ => rfl

lemma announce_frontier (rules : Rules) (trace : Trace) (m : Meter) (entry : Entry) :
    trace.announce (frontierRules rules) m entry = trace.announce rules m entry := by
  unfold Trace.announce
  cases entry with
  | priced price memoryEnd => simp only [Meter.announcement, bill_frontier]
  | _ => rfl

lemma agrees_record (entry : Entry) : Agrees (Executor.record entry) := by
  intro ex
  have hmeter := meterRecord_frontier ex.rules entry
  have htrace := announce_frontier ex.rules ex.trace ex.frame.meter entry
  simp only [record_eq, asFrontier, hmeter, htrace]

lemma agrees_recordAll (entries : List Entry) : Agrees (Executor.recordAll entries) := by
  induction entries with
  | nil => exact fun ex => rfl
  | cons entry rest ih =>
    intro ex
    simp only [Executor.recordAll, Action.bind_apply, agrees_record entry ex]
    cases Executor.record entry ex with
    | mk result after =>
      cases result with
      | error f => rfl
      | ok u => exact ih after

lemma price_frontier {ex : Executor} {op : Opcode} (hop : op ≠ .delegateCall) (address : Address)
    (stack : Stack) : (asFrontier ex).price op address stack = ex.price op address stack := by
  unfold Executor.price
  cases hi : op.instruction? with
  | none => rfl
  | some i =>
    cases i with
    | binary op => cases op <;> rfl
    | call scheme =>
      cases scheme with
      | call => rfl
      | callCode => rfl
      | delegateCall => exact absurd (opcode_of_call hi) hop
    | _ => rfl

lemma charge_frontier {op : Opcode} (hop : op ≠ .delegateCall) (address : Address) (stack : Stack)
    (memoryEnd : Option Nat) : Agrees (Executor.charge op address stack memoryEnd) := by
  intro ex
  unfold Executor.charge
  rw [price_frontier hop]
  split
  · exact agrees_record _ ex
  · split
    · rfl
    · exact agrees_record _ ex

lemma emit_frontier (ex : Executor) (listener : Listener) (event : Event) :
    (asFrontier ex).emit listener event = asFrontier (ex.emit listener event) := by
  unfold Executor.emit
  rw [asFrontier_trace]
  split <;> rfl

lemma ensureAccount_frontier (ex : Executor) (address : Address) :
    (asFrontier ex).ensureAccount address = asFrontier (ex.ensureAccount address) := by
  unfold Executor.ensureAccount
  rw [asFrontier_world]
  split <;> rfl

lemma agrees_leave (closing : Closing) : Agrees (Executor.leave closing) := by
  intro ex
  unfold Executor.leave
  rw [asFrontier_waiting]
  cases ex.waiting with
  | nil => rfl
  | cons entry rest =>
    exact agrees_recordAll (ex.frame.giveBack closing)
      { ex with
        frame := entry.1
        waiting := rest
        world := if closing = .commit then ex.world else ex.world.revertTo entry.2 }

lemma close_frontier (ex : Executor) (closing : Closing) :
    (asFrontier ex).close closing = asFrontier (ex.close closing) := by
  rw [Executor.close, agrees_leave]
  rfl

lemma agrees_transfer (t : Transfer) : Agrees (Executor.transfer t) := by
  intro ex
  unfold Executor.transfer
  rw [asFrontier_world]
  split <;> rfl

lemma agrees_transferIfAny (t : Option Transfer) : Agrees (Executor.transferIfAny t) := by
  cases t with
  | none => exact fun ex => rfl
  | some t => exact agrees_transfer t

lemma agrees_markDestroyed (address target : Address) :
    Agrees (Executor.markDestroyed address target) := by
  intro ex
  simp only [Executor.markDestroyed, emit_frontier, asFrontier_world, agrees_transfer _ _]
  generalize ex.emit .executor (.selfDestruct address target (ex.world.balance address)) = marked
  cases Executor.transfer ⟨address, target, ex.world.balance address⟩ marked with
  | mk result moved => cases result <;> rfl

/-- The opening with its executor under the first fork. -/
def openingAsFrontier {α : Type} : Opening α → Opening α
  | .over outcome ex => .over outcome (asFrontier ex)
  | .ready m ex => .ready m (asFrontier ex)

lemma enterCall_frontier (ex : Executor) (code input : Bytes) (gasLimit : Nat)
    (t : Option Transfer) (address : Address) :
    (asFrontier ex).enterCall code input gasLimit t address =
      openingAsFrontier (ex.enterCall code input gasLimit t address) := by
  have hentered : (asFrontier ex).enter gasLimit false = asFrontier (ex.enter gasLimit false) := rfl
  simp only [Executor.enterCall, hentered]
  generalize ex.enter gasLimit false = entered
  have hdeep : (asFrontier entered).isTooDeep = entered.isTooDeep := rfl
  rw [hdeep, ensureAccount_frontier, agrees_transferIfAny, close_frontier]
  split
  · rfl
  · cases Executor.transferIfAny t (entered.ensureAccount address) with
    | mk result moved =>
      cases result with
      | error f => simp only [close_frontier, openingAsFrontier]
      | ok u =>
        simp only [close_frontier]
        split <;> rfl

lemma openCall_frontier (ex : Executor) (codeAddress : Address) (t : Option Transfer)
    (input : Bytes) (targetGas : Option Nat) (withStipend : Bool) (context : Context) :
    (asFrontier ex).openCall codeAddress t input targetGas withStipend context =
      openingAsFrontier (ex.openCall codeAddress t input targetGas withStipend context) := by
  simp only [Executor.openCall, asFrontier_frame, emit_frontier]
  generalize ex.emit .executor (.call codeAddress t input targetGas ex.frame.readOnly context)
    = announced
  rw [asFrontier_gas, agrees_record]
  cases Executor.record (.cost (min (targetGas.getD announced.gas) announced.gas)) announced with
  | mk result paid =>
    cases result with
    | error f => rfl
    | ok u => exact enterCall_frontier paid _ _ _ _ _

lemma enterCreation_frontier (ex : Executor) (caller address : Address) (value : Word)
    (initCode : Bytes) (gasLimit : Nat) :
    (asFrontier ex).enterCreation caller address value initCode gasLimit =
      openingAsFrontier (ex.enterCreation caller address value initCode gasLimit) := by
  have hentered : (asFrontier ex).enter gasLimit false = asFrontier (ex.enter gasLimit false) := rfl
  simp only [Executor.enterCreation, hentered]
  generalize ex.enter gasLimit false = entered
  have hcollision : (asFrontier entered).isCollision address = entered.isCollision address := rfl
  have hfounded : (asFrontier entered).onWorld (fun w => w.createAccount address) =
      asFrontier (entered.onWorld fun w => w.createAccount address) := rfl
  rw [hcollision, hfounded, agrees_transfer, close_frontier]
  split
  · rfl
  · cases Executor.transfer ⟨caller, address, value⟩
        (entered.onWorld fun w => w.createAccount address) with
    | mk result moved =>
      cases result with
      | error f => simp only [close_frontier, openingAsFrontier]
      | ok u => rfl

lemma openCreation_frontier (ex : Executor) (caller address : Address) (value : Word)
    (initCode : Bytes) (targetGas : Option Nat) :
    (asFrontier ex).openCreation caller address value initCode targetGas =
      openingAsFrontier (ex.openCreation caller address value initCode targetGas) := by
  simp only [Executor.openCreation, emit_frontier]
  generalize ex.emit .executor (.create caller address value initCode targetGas) = announced
  have hfault : (asFrontier announced).creationFault caller value =
      announced.creationFault caller value := rfl
  rw [hfault]
  cases announced.creationFault caller value with
  | some f => rfl
  | none =>
    simp only [asFrontier_gas, agrees_record _ _]
    cases Executor.record (.cost (min announced.gas (targetGas.getD announced.gas)))
        announced with
    | mk result paid =>
      cases result with
      | error f => rfl
      | ok u => exact enterCreation_frontier (raiseNonce caller paid) _ _ _ _ _

lemma closeCall_frontier (exit : Exit) (output : Bytes) (ex : Executor) :
    Executor.closeCall exit output (asFrontier ex) =
      ((Executor.closeCall exit output ex).1,
        asFrontier (Executor.closeCall exit output ex).2) := by
  cases exit with
  | succeed halt =>
    simp only [Executor.closeCall, agrees_leave _ _]
    cases Executor.leave .commit ex with
    | mk result after => cases result <;> rfl
  | fault f => simp only [Executor.closeCall, close_frontier]
  | revert => simp only [Executor.closeCall, close_frontier]

/-- A creation whose code is paid for is closed alike. -/
lemma closeCreation_frontier {created : Address} {exit : Exit} {output : Bytes} {ex : Executor}
    (hpays : ∀ halt, exit = .succeed halt →
      (Executor.record (.deposit output.size) ex).1 = .ok ()) :
    Executor.closeCreation created exit output (asFrontier ex) =
      ((Executor.closeCreation created exit output ex).1,
        asFrontier (Executor.closeCreation created exit output ex).2) := by
  cases exit with
  | succeed halt =>
    have hpaid := hpays halt rfl
    simp only [Executor.closeCreation, Executor.depositCode, agrees_record _ _]
    cases hpay : Executor.record (.deposit output.size) ex with
    | mk result paid =>
      rw [hpay] at hpaid
      simp only at hpaid
      subst hpaid
      simp only [agrees_leave _ _]
      cases Executor.leave .commit paid with
      | mk left after => cases left <;> rfl
  | fault f =>
    have hfailed : (asFrontier ex).failMeter = asFrontier ex.failMeter := rfl
    simp only [Executor.closeCreation, hfailed, close_frontier]
  | revert => simp only [Executor.closeCreation, close_frontier]

/-! ### Frames that run in lockstep -/

/-- The runner makes the same of the frame under the first fork. -/
def Lockstep (runner : Runner) (child : Configuration) : Prop :=
  runner child.context child.machine (asFrontier child.executor) =
    (runner child.context child.machine child.executor).map fun (exit, m, ex) =>
      (exit, m, asFrontier ex)

/-- When the frame ends well, it has the gas to pay for its output as code. -/
def PaysForCode (runner : Runner) (child : Configuration) : Prop :=
  ∀ halt last inner, runner child.context child.machine child.executor =
    some (.succeed halt, last, inner) →
      (Executor.record (.deposit last.returnValue.size) inner).1 = .ok ()

lemma call_frontier {runner : Runner} {ex : Executor} {o : CallOrder}
    (hframe : ∀ child, Starts ex (.call o) child → Lockstep runner child) :
    (asFrontier ex).call runner o.codeAddress o.transfer o.input o.targetGas o.withStipend
        o.context =
      (ex.call runner o.codeAddress o.transfer o.input o.targetGas o.withStipend o.context).map
        fun (outcome, after) => (outcome, asFrontier after) := by
  unfold Executor.call
  rw [openCall_frontier]
  cases hopening : ex.openCall o.codeAddress o.transfer o.input o.targetGas o.withStipend
      o.context with
  | «over» outcome after => rfl
  | ready m started =>
    have hlockstep : runner o.context m (asFrontier started) = _ := hframe _ (.call hopening)
    simp only [openingAsFrontier, hlockstep]
    cases runner o.context m started with
    | none => rfl
    | some ended => exact congrArg some (closeCall_frontier ended.1 ended.2.1.returnValue ended.2.2)

lemma create_frontier {runner : Runner} {ex : Executor} {o : CreationOrder}
    (hframe : ∀ child, Starts ex (.create o) child →
      Lockstep runner child ∧ PaysForCode runner child) :
    (asFrontier ex).create runner o.caller o.value o.initCode o.targetGas =
      (ex.create runner o.caller o.value o.initCode o.targetGas).map
        fun (outcome, after) => (outcome, asFrontier after) := by
  have hnext : (asFrontier ex).nextCreation o.caller = ex.nextCreation o.caller := rfl
  unfold Executor.create
  simp only [hnext, openCreation_frontier]
  cases hopening : ex.openCreation o.caller (ex.nextCreation o.caller) o.value o.initCode
      o.targetGas with
  | «over» outcome after => rfl
  | ready m started =>
    obtain ⟨hlockstep, hpays⟩ := hframe _ (.create hopening)
    have hsame : runner ⟨ex.nextCreation o.caller, o.caller, o.value⟩ m (asFrontier started) = _ :=
      hlockstep
    simp only [openingAsFrontier, hsame]
    cases hrun : runner ⟨ex.nextCreation o.caller, o.caller, o.value⟩ m started with
    | none => rfl
    | some ended =>
      obtain ⟨exit, last, inner⟩ := ended
      refine congrArg some (closeCreation_frontier ?_)
      rintro halt rfl
      exact hpays halt last inner hrun

/-- What an instruction leaves, with the executor under the first fork. -/
def performedAsFrontier (result : Control × Machine × Executor) : Control × Machine × Executor :=
  (result.1, result.2.1, asFrontier result.2.2)

lemma proceed_frontier (x : Action Machine Unit) (m : Machine) (ex : Executor) :
    proceed x m (asFrontier ex) = performedAsFrontier (proceed x m ex) := by
  unfold proceed
  cases x m with
  | mk result after => cases result <;> rfl

lemma takeThen_frontier {α : Type} {x : Action Machine α} {m : Machine} {ex : Executor}
    {k : α → Machine → Executor → Option (Control × Machine × Executor)}
    (hk : ∀ a taken, x m = (.ok a, taken) →
      k a taken (asFrontier ex) = (k a taken ex).map performedAsFrontier) :
    takeThen x m (asFrontier ex) k = (takeThen x m ex k).map performedAsFrontier := by
  unfold takeThen
  cases hx : x m with
  | mk result taken =>
    cases result with
    | error f => rfl
    | ok a => exact hk a taken hx

lemma performLoad_frontier (context : Context) (m : Machine) (ex : Executor) :
    performLoad context m (asFrontier ex) = performedAsFrontier (performLoad context m ex) := by
  unfold performLoad
  cases Machine.pop m with
  | mk result popped =>
    cases result with
    | error f => rfl
    | ok slot =>
      simp only [asFrontier_world]
      cases Machine.push (ex.world.storage context.address slot) popped with
      | mk result pushed =>
        cases result with
        | error f => rfl
        | ok u => simp only [emit_frontier, performedAsFrontier]

/-- Instructions do the same under the first fork if the frames that they start do. -/
lemma perform_frontier {runner : Runner} {i : Instruction} {context : Context} {m : Machine}
    {ex : Executor}
    (hcall : ∀ scheme request taken child, i = .call scheme →
      Machine.takeCall scheme m = (.ok request, taken) →
      Starts ex (.call
        { codeAddress := request.target
          transfer := context.transferFor scheme request.target request.value
          input := request.input
          targetGas := request.gas.toQuantity?
          withStipend := true
          context := context.forCall scheme request.target request.value }) child →
      Lockstep runner child)
    (hcreate : ∀ value initCode taken child, i = .create →
      Machine.takeCreation m = (.ok (value, initCode), taken) →
      Starts ex (.create ⟨context.address, value, initCode, none⟩) child →
      Lockstep runner child ∧ PaysForCode runner child) :
    perform runner i context m (asFrontier ex) =
      (perform runner i context m ex).map performedAsFrontier := by
  cases i with
  | call scheme =>
    simp only [perform]
    refine takeThen_frontier fun request taken htake => ?_
    have hended := call_frontier fun child => hcall scheme request taken child rfl htake
    simp only at hended
    rw [hended]
    cases ex.call runner request.target
        (context.transferFor scheme request.target request.value) request.input
        request.gas.toQuantity? true (context.forCall scheme request.target request.value) with
    | none => rfl
    | some ended => exact congrArg some (proceed_frontier _ _ _)
  | create =>
    simp only [perform]
    refine takeThen_frontier ?_
    rintro ⟨value, initCode⟩ taken htake
    have hended := create_frontier fun child => hcreate value initCode taken child rfl htake
    simp only at hended
    simp only [hended]
    cases ex.create runner context.address value initCode none with
    | none => rfl
    | some ended => exact congrArg some (proceed_frontier _ _ _)
  | sstore =>
    simp only [perform]
    refine takeThen_frontier ?_
    rintro ⟨slot, value⟩ taken htake
    simp only [emit_frontier]
    rfl
  | selfDestruct =>
    simp only [perform]
    refine takeThen_frontier fun target taken htake => ?_
    simp only [agrees_markDestroyed _ _ _]
    cases Executor.markDestroyed context.address target.toAddress ex with
    | mk result marked => cases result <;> rfl
  | log topics | ret =>
    simp only [perform]
    exact takeThen_frontier fun _ _ _ => rfl
  | sload => exact congrArg some (performLoad_frontier _ _ _)
  | invalid =>
    unfold perform
    cases m.opcode? <;> rfl
  | reading value =>
    have hvalue : value.value context m (asFrontier ex) = value.value context m ex := by
      cases value <;> rfl
    simp only [perform, hvalue, proceed_frontier]
    rfl
  | stop | jumpDest => rfl
  | _ => exact congrArg some (proceed_frontier _ _ _)

lemma get_frontier {op : Opcode} (hop : op ≠ .delegateCall) :
    InstructionSet.frontier.get op = InstructionSet.homestead.get op := by
  rw [InstructionSet.homestead, get_replace, if_neg hop.symm]

lemma admit_frontier {ex : Executor} {m : Machine} (hinstructions : ex.instructions = .homestead)
    (hop : m.opcode? ≠ some .delegateCall) : Executor.admit (asFrontier ex) m = ex.admit m := by
  unfold Executor.admit
  cases hm : m.opcode? with
  | none => rfl
  | some op =>
    have hother : op ≠ .delegateCall := fun hsame => hop (hm.trans (congrArg some hsame))
    have hget : (asFrontier ex).instructions.get op = ex.instructions.get op := by
      rw [hinstructions]
      exact get_frontier hother
    have hvet (o : Operation) : (asFrontier ex).vet op o m.stack = ex.vet op o m.stack := rfl
    simp only [hget, hvet]

def progressAsFrontier : Progress → Progress
  | .next m ex => .next m (asFrontier ex)
  | .exit exit m ex => .exit exit m (asFrontier ex)

lemma step_frontier {runner : Runner} {c : Configuration}
    (hinstructions : c.executor.instructions = .homestead)
    (hop : c.machine.opcode? ≠ some .delegateCall)
    (hcalls : ∀ task o ready child, Orders c task (.call o) ready → Starts ready (.call o) child →
      Lockstep runner child)
    (hcreations : ∀ task o ready child, Orders c task (.create o) ready →
      Starts ready (.create o) child → Lockstep runner child ∧ PaysForCode runner child) :
    step runner c.context c.machine (asFrontier c.executor) =
      (step runner c.context c.machine c.executor).map progressAsFrontier := by
  unfold step
  rw [admit_frontier hinstructions hop]
  cases hvetted : c.executor.admit c.machine with
  | error exit => rfl
  | ok task =>
    have hother : task.op ≠ .delegateCall := by
      intro hsame
      exact hop ((task_of_admitted hvetted).1.trans (congrArg some hsame))
    simp only [charge_frontier hother _ _ _ _]
    cases hcharge : Executor.charge task.op c.context.address c.machine.stack task.memoryEnd
        c.executor with
    | mk result paid =>
      cases result with
      | error f => rfl
      | ok u =>
        simp only
        cases hgrow : Machine.grow task.memoryEnd c.machine with
        | mk result grown =>
          cases result with
          | error f => rfl
          | ok u =>
            have hperforms : Performs c task grown _ := .intro hvetted hcharge hgrow
            simp only [Task.dispatch, act_instruction, emit_frontier]
            generalize paid.emit .runtime (.step c.context.address task.op grown.position
              grown.stack grown.memory) = ready at hperforms ⊢
            rw [perform_frontier
              (fun _ _ _ child hi htake => hcalls task _ ready child (.call hperforms hi htake))
              (fun _ _ _ child hi htake =>
                hcreations task _ ready child (.create hperforms hi htake))]
            cases perform runner task.operation.behaviour c.context grown ready with
            | none => rfl
            | some ended =>
              obtain ⟨control, done, after⟩ := ended
              simp only [Option.map_some, performedAsFrontier]
              cases task.conclude control done with
              | mk exit last => cases exit <;> simp only [emit_frontier] <;> rfl

/-- An execution that comes to nothing in which the forks differ. -/
structure ForkNeutral (c : Configuration) : Prop where
  instructions : c.executor.instructions = .homestead
  opcodes : ∀ c', Reaches c c' → c'.machine.opcode? ≠ some .delegateCall
  deposits : ∀ c' task o ready child fuel, Reaches c c' → Orders c' task (.create o) ready →
    Starts ready (.create o) child → PaysForCode (run fuel) child

lemma ForkNeutral.leads {c d : Configuration} (hc : ForkNeutral c) (h : Leads c d) :
    ForkNeutral d where
  instructions := by
    refine Reaches.invariant (P := fun ex => ex.instructions = .homestead) ?_ ?_
      (Relation.ReflTransGen.single h) hc.instructions
    · exact fun hevolves hex => hevolves.keeps.instructions.trans hex
    · exact fun _ hex => hex
  opcodes c' hreaches := hc.opcodes c' (.head h hreaches)
  deposits c' task o ready child fuel hreaches :=
    hc.deposits c' task o ready child fuel (.head h hreaches)

theorem run_frontier (fuel : Nat) {c : Configuration} (hc : ForkNeutral c) :
    Lockstep (run fuel) c := by
  induction fuel generalizing c with
  | zero => rfl
  | succ fuel ih =>
    have hstep := step_frontier hc.instructions (hc.opcodes c .refl)
      (fun _ _ _ _ horders hstarts => ih (hc.leads (.nested horders hstarts)))
      (fun _ _ _ _ horders hstarts => ⟨ih (hc.leads (.nested horders hstarts)),
        hc.deposits c _ _ _ _ fuel .refl horders hstarts⟩)
    unfold Lockstep
    simp only [run, hstep]
    cases hnext : step (run fuel) c.context c.machine c.executor with
    | none => rfl
    | some p =>
      cases p with
      | next m ex => exact ih (hc.leads (.next hnext))
      | exit exit m ex => rfl

lemma runs_frontier {c : Configuration} (hc : ForkNeutral c) :
    Lockstep (runs Executor.stepAllowance) c := by
  have hallowance : (asFrontier c.executor).stepAllowance = c.executor.stepAllowance := by
    rw [Executor.stepAllowance, Executor.stepAllowance, asFrontier_gas]
  have hrun := run_frontier c.executor.stepAllowance hc
  unfold Lockstep runs at *
  rw [hallowance]
  exact hrun

lemma executeMessage_frontier {ex : Executor} {m : Message}
    (hframe : ∀ child, Starts (messageReady ex m) (messageOrder m) child →
      Lockstep (runs Executor.stepAllowance) child ∧
        (m.recipient = none → PaysForCode (runs Executor.stepAllowance) child)) :
    (asFrontier ex).executeMessage m =
      (ex.executeMessage m).map fun (outcome, after) => (outcome, asFrontier after) := by
  unfold messageReady messageOrder at hframe
  unfold Executor.executeMessage
  cases hrecipient : m.recipient with
  | none =>
    simp only [hrecipient, messageStart_create hrecipient] at hframe
    simp only [Executor.transactCreate]
    have hreset : (asFrontier ex).reset m.sender m.gasLimit =
        asFrontier (ex.reset m.sender m.gasLimit) := rfl
    have hnext : (asFrontier (ex.reset m.sender m.gasLimit)).nextCreation m.sender =
        (ex.reset m.sender m.gasLimit).nextCreation m.sender := rfl
    rw [hreset, hnext, emit_frontier]
    generalize (ex.reset m.sender m.gasLimit).emit .executor (.transactCreate m.sender m.value
      m.data m.gasLimit ((ex.reset m.sender m.gasLimit).nextCreation m.sender)) = ready at hframe ⊢
    have hended : (asFrontier ready).nestedCreation m.sender m.value m.data (some m.gasLimit) =
        (ready.nestedCreation m.sender m.value m.data (some m.gasLimit)).map
          fun (outcome, after) => (outcome, asFrontier after) :=
      @create_frontier _ ready ⟨m.sender, m.value, m.data, some m.gasLimit⟩ fun child hstarts =>
        ⟨(hframe child hstarts).1, (hframe child hstarts).2 trivial⟩
    rw [hended]
    cases ready.nestedCreation m.sender m.value m.data (some m.gasLimit) with
    | none => rfl
    | some ended => simp only [Option.map_some, emit_frontier]
  | some recipient =>
    simp only [hrecipient, messageStart_call hrecipient] at hframe
    simp only [Executor.transactCall, ensureAccount_frontier]
    have hreset : ((asFrontier (ex.ensureAccount recipient)).onWorld fun w =>
          w.setNonce m.sender (w.nonce m.sender + 1)).reset m.sender m.gasLimit =
        asFrontier (((ex.ensureAccount recipient).onWorld fun w =>
          w.setNonce m.sender (w.nonce m.sender + 1)).reset m.sender m.gasLimit) := rfl
    rw [hreset, emit_frontier]
    generalize (((ex.ensureAccount recipient).onWorld fun w =>
      w.setNonce m.sender (w.nonce m.sender + 1)).reset m.sender m.gasLimit).emit .executor
        (.transactCall m.sender recipient m.value m.data m.gasLimit) = ready at hframe ⊢
    have hended : (asFrontier ready).nestedCall recipient (some ⟨m.sender, recipient, m.value⟩)
          m.data (some m.gasLimit) false ⟨recipient, m.sender, m.value⟩ =
        (ready.nestedCall recipient (some ⟨m.sender, recipient, m.value⟩) m.data
          (some m.gasLimit) false ⟨recipient, m.sender, m.value⟩).map
            fun (outcome, after) => (outcome, asFrontier after) :=
      @call_frontier _ ready ⟨recipient, some ⟨m.sender, recipient, m.value⟩, m.data,
        some m.gasLimit, false, ⟨recipient, m.sender, m.value⟩⟩ fun child hstarts =>
          (hframe child hstarts).1
    rw [hended]
    cases ready.nestedCall recipient (some ⟨m.sender, recipient, m.value⟩) m.data
        (some m.gasLimit) false ⟨recipient, m.sender, m.value⟩ with
    | none => rfl
    | some ended => simp only [Option.map_some, emit_frontier]

lemma settleMessage_frontier (ex : Executor) (m : Message) (pool : GasPool) (snapshot : Nat)
    (outcome : Creation) :
    (asFrontier ex).settleMessage m pool snapshot outcome =
      (ex.settleMessage m pool snapshot outcome).map fun applied =>
        { applied with executor := asFrontier applied.executor } := by
  have hused : (asFrontier ex).usedGas? = ex.usedGas? := rfl
  simp only [Executor.settleMessage, hused]
  split
  · rfl
  · cases ex.usedGas? <;> rfl

/-- The steps that the execution of a message comes to, if the message is accepted. -/
def Visits (ex : Executor) (m : Message) (pool : GasPool) (c : Configuration) : Prop :=
  rejection? ex.world pool m = none ∧ ∃ outermost,
    Starts (messageReady (ex.ensureAccount m.sender) m) (messageOrder m) outermost ∧
      Reaches outermost c

/-- The frames that creations start in the execution of an accepted message, its own included. -/
inductive Founds (ex : Executor) (m : Message) (pool : GasPool) : Configuration → Prop
  | own {child : Configuration} (haccepted : rejection? ex.world pool m = none)
      (hrecipient : m.recipient = none)
      (hstarts : Starts (messageReady (ex.ensureAccount m.sender) m) (messageOrder m) child) :
    Founds ex m pool child
  | nested {c child : Configuration} {task : Task} {o : CreationOrder} {ready : Executor}
      (hvisits : Visits ex m pool c) (horders : Orders c task (.create o) ready)
      (hstarts : Starts ready (.create o) child) : Founds ex m pool child

lemma applyMessage_frontier {ex : Executor} {m : Message} {pool : GasPool}
    (hinstructions : ex.instructions = .homestead) (haccepted : rejection? ex.world pool m = none)
    (hopcodes : ∀ c, Visits ex m pool c → c.machine.opcode? ≠ some .delegateCall)
    (hdeposits : ∀ child fuel, Founds ex m pool child → PaysForCode (run fuel) child) :
    (asFrontier ex).applyMessage m pool = (ex.applyMessage m pool).map fun applied =>
      { applied with executor := asFrontier applied.executor } := by
  have hexecuted := @executeMessage_frontier (ex.ensureAccount m.sender) m fun child hstarts => by
    have hneutral : ForkNeutral child := by
      refine ⟨?_, fun c hreaches => hopcodes c ⟨haccepted, child, hstarts, hreaches⟩, ?_⟩
      · rw [hstarts.surroundings.1, (messageReady_surroundings ex m).1]
        exact hinstructions
      · intro c task o ready grandchild fuel hreaches horders hnested
        exact hdeposits grandchild fuel (.nested ⟨haccepted, child, hstarts, hreaches⟩ horders
          hnested)
    refine ⟨runs_frontier hneutral, fun hrecipient => ?_⟩
    have hpays := hdeposits child child.executor.stepAllowance (.own haccepted hrecipient hstarts)
    exact fun halt last inner hrun => hpays halt last inner hrun
  have hnonce : (asFrontier ex).world.nonce m.sender = ex.world.nonce m.sender := rfl
  unfold Executor.applyMessage
  rw [hnonce]
  cases m.nonceFault (ex.world.nonce m.sender) with
  | some rejection => rfl
  | none =>
    cases pool.sub m.gasLimit with
    | error shortage => rfl
    | ok rest =>
      simp only [ensureAccount_frontier, hexecuted]
      cases (ex.ensureAccount m.sender).executeMessage m with
      | none => rfl
      | some ended => exact settleMessage_frontier _ _ _ _ _

/-- Under the rules of the first fork a message has the result and leaves the world and the pool
that it does under those of the second, if its execution under these comes to no `DELEGATECALL`,
and to no creation that ends well and cannot pay for its code. -/
theorem forks_agree {ex : Executor} (hrules : ex.rules = .homestead)
    (hinstructions : ex.instructions = .homestead) (m : Message) (pool : GasPool)
    (hopcodes : ∀ c, Visits ex m pool c → c.machine.opcode? ≠ some .delegateCall)
    (hdeposits : ∀ child fuel, Founds ex m pool child → PaysForCode (run fuel) child) :
    ∃ applied applied', ex.applyMessage m pool = some applied ∧
      Executor.applyMessage { ex with rules := .frontier, instructions := .frontier } m pool =
        some applied' ∧
      applied'.result = applied.result ∧ applied'.executor.world = applied.executor.world ∧
      applied'.pool = applied.pool := by
  have hfrontier : asFrontier ex = { ex with rules := .frontier, instructions := .frontier } := by
    have hsame : frontierRules .homestead = .frontier := rfl
    rw [asFrontier, hrules, hsame]
  rw [← hfrontier]
  cases hrejection : rejection? ex.world pool m with
  | some rejection =>
    obtain ⟨after, hafter, hworld⟩ := applyMessage_rejected hrejection
    obtain ⟨after', hafter', hworld'⟩ := @applyMessage_rejected (asFrontier ex) m pool _ hrejection
    exact ⟨_, _, hafter, hafter', rfl, hworld'.trans hworld.symm, rfl⟩
  | none =>
    have hex : Ordinary ex := ⟨.inr hinstructions, by rw [hrules]; exact metered_ofFork .homestead⟩
    have hquotient : ex.rules.maxRefundQuotient ≠ 0 := by
      rw [hrules]
      decide
    obtain ⟨applied, happlied⟩ := applyMessage_ends hex hquotient m pool
    have hsame := applyMessage_frontier hinstructions hrejection hopcodes hdeposits
    rw [happlied] at hsame
    exact ⟨applied, _, happlied, hsame, rfl, rfl, rfl⟩

/-- Whether the frame, run for so many steps, has the gas to pay for its code. -/
def paysForCode? (fuel : Nat) (child : Configuration) : Bool :=
  match run fuel child.context child.machine child.executor with
  | none => false
  | some (.succeed _, last, inner) =>
    (Executor.record (.deposit last.returnValue.size) inner).1.isOk
  | some _ => true

lemma paysForCode_of_check {fuel' : Nat} {child : Configuration}
    (h : paysForCode? fuel' child = true) (fuel : Nat) : PaysForCode (run fuel) child := by
  intro halt last inner hrun
  unfold paysForCode? at h
  split at h
  · cases h
  · next last' inner' hrun' =>
    have hleft := run_covers (Nat.le_max_left fuel fuel') hrun
    have hright := run_covers (Nat.le_max_right fuel fuel') hrun'
    rw [hleft, Option.some.injEq, Prod.mk.injEq, Prod.mk.injEq] at hright
    obtain ⟨-, rfl, rfl⟩ := hright
    cases hpay : (Executor.record (.deposit last.returnValue.size) inner).1 with
    | error f =>
      rw [hpay] at h
      cases h
    | ok u => rfl
  · next result hfailed hrun' =>
    have hleft := run_covers (Nat.le_max_left fuel fuel') hrun
    have hright := run_covers (Nat.le_max_right fuel fuel') hrun'
    rw [hleft, Option.some.injEq] at hright
    exact absurd hright.symm (hfailed halt last inner)

/-- Whether the step is one in which the forks do not differ. -/
def neutralStep? (fuel : Nat) (c : Configuration) : Bool :=
  c.machine.opcode? != some .delegateCall &&
    match c.order? with
    | some (.create o, ready) => ((Order.create o).start? ready).all (paysForCode? fuel)
    | _ => true

/-- Whether the execution of a message comes to nothing in which the forks differ. -/
def neutralMessage? (fuel : Nat) (ex : Executor) (m : Message) : Bool :=
  ((messageOrder m).start? (messageReady (ex.ensureAccount m.sender) m)).all fun outermost =>
    paysForCode? fuel outermost && (steps fuel outermost).all (neutralStep? fuel)

lemma neutral_of_check {ex : Executor} {m : Message} {pool : GasPool} {fuel : Nat}
    (h : neutralMessage? fuel ex m = true) :
    (∀ c, Visits ex m pool c → c.machine.opcode? ≠ some .delegateCall) ∧
      ∀ child fuel, Founds ex m pool child → PaysForCode (run fuel) child := by
  have hstarted {outermost : Configuration} (hstarts : Starts
      (messageReady (ex.ensureAccount m.sender) m) (messageOrder m) outermost) :
      paysForCode? fuel outermost = true ∧
        (steps fuel outermost).all (neutralStep? fuel) = true := by
    rw [neutralMessage?, start?_iff.mpr hstarts] at h
    simpa using h
  have hvisited {c : Configuration} (hc : Visits ex m pool c) : neutralStep? fuel c = true := by
    obtain ⟨-, outermost, hstarts, hreaches⟩ := hc
    obtain ⟨hpays, hall⟩ := hstarted hstarts
    cases hrun : run fuel outermost.context outermost.machine outermost.executor with
    | none => simp [paysForCode?, hrun] at hpays
    | some result => exact List.all_eq_true.mp hall c (hreaches.mem_steps hrun)
  constructor
  · intro c hc hop
    have hneutral := hvisited hc
    simp [neutralStep?, hop] at hneutral
  · intro child fuel' hfounds
    cases hfounds with
    | own haccepted hrecipient hstarts => exact paysForCode_of_check (hstarted hstarts).1 fuel'
    | nested hc horders hstarts =>
      have hneutral := hvisited hc
      rw [neutralStep?, order?_iff.mpr ⟨_, horders⟩] at hneutral
      simp only [start?_iff.mpr hstarts, Option.all_some, Bool.and_eq_true] at hneutral
      exact paysForCode_of_check hneutral.2 fuel'

/-- A sender with funds beside an account that writes to a slot. -/
def foundingExecutor : Executor :=
  let accounts : Std.ExtTreeMap Address Account :=
    (Std.ExtTreeMap.empty.insert 0xa ⟨0, 5, ∅, #[]⟩).insert 0xb
      ⟨0, 0, ∅, #[0x60, 1, 0x60, 0, 0x55]⟩
  .new (.ofAccounts accounts) .homestead .zero

/-- Calls this account, creates a contract without code, and leaves one byte of code. -/
def foundingMessage : Message where
  sender := 0xa
  recipient := none
  value := 3
  nonce := 0
  checksNonce := true
  data :=
    #[0x60, 0, 0x60, 0, 0x60, 0, 0x60, 0, 0x60, 0, 0x60, 0xb, 0x61, 0x75, 0x30, 0xf1,
      0x60, 0, 0x60, 0, 0x60, 0, 0xf0, 0x60, 1, 0x60, 0, 0xf3]
  gasLimit := 90000

theorem forks_agree_foundingExecutor :
    ∃ applied applied', foundingExecutor.applyMessage foundingMessage (.ofNat 100000) =
        some applied ∧
      Executor.applyMessage { foundingExecutor with rules := .frontier, instructions := .frontier }
        foundingMessage (.ofNat 100000) = some applied' ∧
      applied.result.toOption.map Receipt.failed = some false ∧
      applied'.result = applied.result ∧ applied'.executor.world = applied.executor.world ∧
      applied'.pool = applied.pool := by
  have hinstructions : foundingExecutor.instructions = .homestead := rfl
  have hneutral : neutralMessage? 40 foundingExecutor foundingMessage = true := by decide +kernel
  obtain ⟨hopcodes, hdeposits⟩ := neutral_of_check hneutral
  obtain ⟨applied, applied', happlied, happlied', hsame⟩ :=
    forks_agree rfl hinstructions foundingMessage (.ofNat 100000) hopcodes hdeposits
  have hsucceeds : (foundingExecutor.applyMessage foundingMessage (.ofNat 100000)).bind
      (fun applied => applied.result.toOption.map Receipt.failed) = some false := by
    decide +kernel
  rw [happlied, Option.bind_some] at hsucceeds
  exact ⟨applied, applied', happlied, happlied', hsucceeds, hsame⟩

end ContractMachine.Proofs
