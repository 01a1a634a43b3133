import ContractMachine.Proofs.Refunds
import ContractMachine.Proofs.VettedOperands

/-!
# How traces are nested

Every step that is performed is announced before and reported after. A step that orders a frame
announces it once in between, and then come the events of the frame. So the events of an execution
are brackets within brackets, and which these are can be told from the execution: what is added to
a trace is put together from what each of its parts adds.
-/

namespace ContractMachine.Proofs

/-- Whether the event is the first or the last one of a transaction. -/
def framesTransaction : Event → Bool
  | .transactCall .. | .transactCreate .. | .exit .. => true
  | _ => false

/-- Whether the event tells of the beginning or the end of a transaction, a frame or a step. -/
def isStructural : Event → Bool
  | .call .. | .create .. | .step .. | .stepResult .. => true
  | event => framesTransaction event

mutual

/-- The structural events of a frame, from a step on until it ends. -/
inductive FrameTrace : Configuration → List Event → Prop
  /-- What is rejected or not paid for leaves none. -/
  | rejected {c : Configuration} (h : c.performance? = none) : FrameTrace c []
  | ends {c : Configuration} {task : Task} {grown m : Machine} {ready ex : Executor} {fuel : Nat}
      {exit : Exit} {inner : List Event} (hperforms : Performs c task grown ready)
      (hstep : step (run fuel) c.context c.machine c.executor = some (.exit exit m ex))
      (hinner : StepTrace c task inner) :
    FrameTrace c (.step c.context.address task.op grown.position grown.stack grown.memory ::
      (inner ++ [.stepResult (some exit) m.returnValue]))
  | goesOn {c : Configuration} {task : Task} {grown m : Machine} {ready ex : Executor} {fuel : Nat}
      {inner rest : List Event} (hperforms : Performs c task grown ready)
      (hstep : step (run fuel) c.context c.machine c.executor = some (.next m ex))
      (hinner : StepTrace c task inner) (hrest : FrameTrace ⟨c.context, m, ex⟩ rest) :
    FrameTrace c (.step c.context.address task.op grown.position grown.stack grown.memory ::
      (inner ++ .stepResult none m.returnValue :: rest))

/-- The structural events between the announcement of a step and its report. -/
inductive StepTrace : Configuration → Task → List Event → Prop
  | plain {c : Configuration} {task : Task}
      (h : opensFrame task.operation.behaviour = false) : StepTrace c task []
  | ordered {c : Configuration} {task : Task} {order : Order} {ready : Executor}
      {events : List Event} (horders : Orders c task order ready)
      (horder : OrderTrace ready order events) : StepTrace c task events

/-- The structural events of an order that is carried out. -/
inductive OrderTrace : Executor → Order → List Event → Prop
  | unopened {ex : Executor} {order : Order} (h : ∀ child, ¬Starts ex order child) :
    OrderTrace ex order [order.announcement ex]
  | opened {ex : Executor} {order : Order} {child : Configuration} {events : List Event}
      (hstarts : Starts ex order child) (hframe : FrameTrace child events) :
    OrderTrace ex order (order.announcement ex :: events)

end

lemma announcement_frames (ex : Executor) (order : Order) :
    isStructural (order.announcement ex) = true ∧
      framesTransaction (order.announcement ex) = false := by
  cases order <;> exact ⟨rfl, rfl⟩

mutual

/-- No transaction begins or ends inside a frame. -/
theorem FrameTrace.inside {c : Configuration} {events : List Event} :
    FrameTrace c events → ∀ event ∈ events, framesTransaction event = false
  | .rejected _ => by simp
  | .ends _ _ hinner => by
    have hinside := hinner.inside
    simpa [framesTransaction, or_imp, forall_and] using hinside
  | .goesOn _ _ hinner hrest => by
    have hinside := hinner.inside
    have hlater := hrest.inside
    simpa [framesTransaction, or_imp, forall_and] using ⟨hinside, hlater⟩

theorem StepTrace.inside {c : Configuration} {task : Task} {events : List Event} :
    StepTrace c task events → ∀ event ∈ events, framesTransaction event = false
  | .plain _ => by simp
  | .ordered _ horder => horder.inside

theorem OrderTrace.inside {ex : Executor} {order : Order} {events : List Event} :
    OrderTrace ex order events → ∀ event ∈ events, framesTransaction event = false
  | .unopened _ => by simpa using (announcement_frames ex order).2
  | .opened _ hframe => by
    have hinside := hframe.inside
    simpa [(announcement_frames ex order).2] using hinside

end

/-- Events have been added to `t`, of which these are structural. -/
structure Adds (t t' : Trace) (structural : List Event) : Prop where
  listeners : t'.listeners = t.listeners
  events : ∃ added, t'.events = t.events ++ added ∧ added.filter isStructural = structural

/-- Somebody listens to frames and to steps. -/
structure Heard (t : Trace) : Prop where
  runtime : t.hears .runtime = true
  executor : t.hears .executor = true

section Adds

variable {t mid t' : Trace} {first rest : List Event}

lemma Adds.refl (t : Trace) : Adds t t [] := ⟨rfl, [], (List.append_nil _).symm, rfl⟩

lemma Adds.trans (h : Adds t mid first) (h' : Adds mid t' rest) : Adds t t' (first ++ rest) := by
  obtain ⟨hlisteners, added, hevents, rfl⟩ := h
  obtain ⟨hlisteners', added', hevents', rfl⟩ := h'
  refine ⟨hlisteners'.trans hlisteners, added ++ added', ?_, List.filter_append _ _⟩
  rw [hevents', hevents, List.append_assoc]

/-- What adds no structural event can be left out of account. -/
lemma Adds.after_quiet (h : Adds t mid []) (h' : Adds mid t' rest) : Adds t t' rest := h.trans h'

lemma Adds.then_quiet (h : Adds t mid first) (h' : Adds mid t' []) : Adds t t' first := by
  have hboth := h.trans h'
  rwa [List.append_nil] at hboth

lemma Adds.heard (h : Adds t t' first) (ht : Heard t) : Heard t' := by
  obtain ⟨hruntime, hexecutor⟩ := ht
  constructor
  · rw [Trace.hears, h.listeners]
    exact hruntime
  · rw [Trace.hears, h.listeners]
    exact hexecutor

lemma adds_event (t : Trace) (event : Event) :
    Adds t ⟨t.listeners, event :: t.latest⟩ ([event].filter isStructural) :=
  ⟨rfl, [event], List.reverse_cons, rfl⟩

end Adds

lemma adds_emit {ex : Executor} {listener : Listener} {event : Event}
    (hheard : ex.trace.hears listener = true) (hevent : isStructural event = true) :
    Adds ex.trace (ex.emit listener event).trace [event] := by
  have hadded := adds_event ex.trace event
  rw [List.filter_cons_of_pos hevent, List.filter_nil] at hadded
  rw [Executor.emit, if_pos hheard]
  exact hadded

lemma adds_emit_quiet (ex : Executor) (listener : Listener) {event : Event}
    (hevent : isStructural event = false) : Adds ex.trace (ex.emit listener event).trace [] := by
  have hadded := adds_event ex.trace event
  rw [List.filter_cons_of_neg (by simp [hevent]), List.filter_nil] at hadded
  unfold Executor.emit
  split
  · exact hadded
  · exact .refl _

lemma announcement_quiet {rules : Rules} {m : Meter} {e : Entry} {event : Event}
    (h : m.announcement rules e = some event) : isStructural event = false := by
  unfold Meter.announcement at h
  repeat' split at h
  all_goals cases h
  all_goals rfl

lemma adds_record (e : Entry) (ex : Executor) :
    Adds ex.trace (Executor.record e ex).2.trace [] := by
  rw [record_eq]
  show Adds ex.trace (ex.trace.announce ex.rules ex.frame.meter e) []
  unfold Trace.announce
  split
  · split
    · next event hannounced =>
      have hadded := adds_event ex.trace event
      rw [List.filter_cons_of_neg (by simp [announcement_quiet hannounced])] at hadded
      exact hadded
    · exact .refl _
  · exact .refl _

lemma adds_recordAll (entries : List Entry) (ex : Executor) :
    Adds ex.trace (Executor.recordAll entries ex).2.trace [] := by
  induction entries generalizing ex with
  | nil => exact .refl _
  | cons e rest ih =>
    have hfirst := adds_record e ex
    simp only [Executor.recordAll, Action.bind_apply]
    cases hrecord : Executor.record e ex with
    | mk result mid =>
      rw [hrecord] at hfirst
      cases result with
      | error f => exact hfirst
      | ok u => exact hfirst.after_quiet (ih mid)

lemma adds_leave (closing : Closing) (ex : Executor) :
    Adds ex.trace (Executor.leave closing ex).2.trace [] := by
  unfold Executor.leave
  split
  · exact .refl _
  · next parent snapshot rest _ =>
    exact adds_recordAll (ex.frame.giveBack closing)
      { ex with
        frame := parent
        waiting := rest
        world := if closing = .commit then ex.world else ex.world.revertTo snapshot }

lemma transfer_trace (t : Transfer) (ex : Executor) :
    (Executor.transfer t ex).2.trace = ex.trace := by
  obtain ⟨-, h⟩ | ⟨-, h⟩ := transfer_cases t ex <;> rw [h]
  rfl

lemma transferIfAny_trace (t : Option Transfer) (ex : Executor) :
    (Executor.transferIfAny t ex).2.trace = ex.trace := by
  cases t with
  | none => rfl
  | some t => exact transfer_trace t ex

lemma ensureAccount_trace (address : Address) (ex : Executor) :
    (ex.ensureAccount address).trace = ex.trace := by
  unfold Executor.ensureAccount
  split <;> rfl

/-- The executor that opening a frame comes to. -/
def Opening.executor {α : Type} : Opening α → Executor
  | .over _ ex => ex
  | .ready _ ex => ex

lemma adds_enterCall (ex : Executor) (code input : Bytes) (gasLimit : Nat) (t : Option Transfer)
    (address : Address) :
    Adds ex.trace (Opening.executor (ex.enterCall code input gasLimit t address)).trace [] := by
  have hmoved : (Executor.transferIfAny t ((ex.enter gasLimit false).ensureAccount
      address)).2.trace = ex.trace :=
    (transferIfAny_trace _ _).trans (ensureAccount_trace _ _)
  have hclosed (closing : Closing) {last : Executor} (hlast : last.trace = ex.trace) :
      Adds ex.trace (last.close closing).trace [] := hlast ▸ adds_leave closing last
  simp only [Executor.enterCall]
  split
  · exact hclosed .revert rfl
  · split
    · next htransfer =>
      rw [htransfer] at hmoved
      exact hclosed .revert hmoved
    · next htransfer =>
      rw [htransfer] at hmoved
      split
      · exact hclosed .commit hmoved
      · show Adds ex.trace _ []
        rw [← hmoved]
        exact .refl _

lemma adds_enterCreation (ex : Executor) (caller address : Address) (value : Word)
    (initCode : Bytes) (gasLimit : Nat) :
    Adds ex.trace
      (Opening.executor (ex.enterCreation caller address value initCode gasLimit)).trace [] := by
  have hmoved : (Executor.transfer ⟨caller, address, value⟩ ((ex.enter gasLimit false).onWorld
      fun w => w.createAccount address)).2.trace = ex.trace := transfer_trace _ _
  have hclosed (closing : Closing) {last : Executor} (hlast : last.trace = ex.trace) :
      Adds ex.trace (last.close closing).trace [] := hlast ▸ adds_leave closing last
  simp only [Executor.enterCreation]
  split
  · exact hclosed .discard rfl
  · split
    · next htransfer =>
      rw [htransfer] at hmoved
      exact hclosed .revert hmoved
    · next htransfer =>
      rw [htransfer] at hmoved
      show Adds ex.trace _ []
      rw [← hmoved]
      exact .refl _

lemma adds_openCall {ex : Executor} (hex : Heard ex.trace) (o : CallOrder) :
    Adds ex.trace (Opening.executor (ex.openCall o.codeAddress o.transfer o.input o.targetGas
      o.withStipend o.context)).trace [(Order.call o).announcement ex] := by
  have hannounced := adds_emit hex.executor (announcement_frames ex (.call o)).1
  have hpaid := adds_record (.cost ((Order.call o).gas ex))
    (ex.emit .executor ((Order.call o).announcement ex))
  cases hpay : (Order.call o).pay ex with
  | mk result paid =>
    rw [← Order.pay, hpay] at hpaid
    cases result with
    | error f =>
      rw [openCall_unpaid hpay]
      exact hannounced.then_quiet hpaid
    | ok u =>
      rw [pay_eq_openCall hpay]
      exact (hannounced.then_quiet hpaid).then_quiet (adds_enterCall _ _ _ _ _ _)

lemma adds_openCreation {ex : Executor} (hex : Heard ex.trace) (o : CreationOrder) :
    Adds ex.trace (Opening.executor (ex.openCreation o.caller (ex.nextCreation o.caller) o.value
      o.initCode o.targetGas)).trace [(Order.create o).announcement ex] := by
  have hannounced := adds_emit hex.executor (announcement_frames ex (.create o)).1
  have hpaid := adds_record (.cost ((Order.create o).gas ex))
    (ex.emit .executor ((Order.create o).announcement ex))
  cases haccepted : ex.creationFault o.caller o.value with
  | some f =>
    rw [openCreation_refused haccepted]
    exact hannounced
  | none =>
    cases hpay : (Order.create o).pay ex with
    | mk result paid =>
      rw [← Order.pay, hpay] at hpaid
      cases result with
      | error f =>
        rw [openCreation_unpaid haccepted hpay]
        exact hannounced.then_quiet hpaid
      | ok u =>
        have hentered := adds_enterCreation (raiseNonce o.caller paid) o.caller
          (ex.nextCreation o.caller) o.value o.initCode ((Order.create o).gas ex)
        rw [pay_eq_openCreation haccepted hpay]
        exact (hannounced.then_quiet hpaid).then_quiet hentered

lemma adds_closeCreation (created : Address) (exit : Exit) (output : Bytes) (inner : Executor) :
    Adds inner.trace (Executor.closeCreation created exit output inner).2.trace [] := by
  cases exit with
  | fault f => exact adds_leave .discard inner.failMeter
  | revert => exact adds_leave .revert inner
  | succeed halt =>
    have hpaid := adds_record (.deposit output.size) inner
    unfold Executor.closeCreation Executor.depositCode
    cases hpay : Executor.record (.deposit output.size) inner with
    | mk result last =>
      rw [hpay] at hpaid
      have hleft := adds_leave .commit last
      cases result with
      | ok u =>
        simp only
        cases hleave : Executor.leave .commit last with
        | mk left after =>
          rw [hleave] at hleft
          cases left <;> exact hpaid.after_quiet hleft
      | error f =>
        simp only
        split
        · exact hpaid.after_quiet (adds_leave .discard last.failMeter)
        · cases hleave : Executor.leave .commit last with
          | mk left after =>
            rw [hleave] at hleft
            cases left <;> exact hpaid.after_quiet hleft

section Orders

variable {runner : Runner} {ex after : Executor} {order : Order}

/-- The frames that the order can start leave the events that they should. -/
def FramesTraced (runner : Runner) (ex : Executor) (order : Order) : Prop :=
  ∀ {child exit m last}, Starts ex order child → Heard child.executor.trace →
    runner child.context child.machine child.executor = some (exit, m, last) →
      ∃ events, FrameTrace child events ∧ Adds child.executor.trace last.trace events

lemma carryOut_traced (hex : Heard ex.trace) (hchildren : FramesTraced runner ex order)
    (h : order.carryOut runner ex = some after) :
    ∃ events, OrderTrace ex order events ∧ Adds ex.trace after.trace events := by
  -- A frame that starts adds its events to the announcement, one that does not adds nothing.
  have hran {child : Configuration} {exit : Exit} {m : Machine} {last : Executor}
      (hstarts : Starts ex order child)
      (hopened : Adds ex.trace child.executor.trace [order.announcement ex])
      (hrun : runner child.context child.machine child.executor = some (exit, m, last))
      (hclosed : Adds last.trace after.trace []) :
      ∃ events, OrderTrace ex order events ∧ Adds ex.trace after.trace events := by
    obtain ⟨events, hframe, hadds⟩ := hchildren hstarts (hopened.heard hex) hrun
    exact ⟨_, .opened hstarts hframe, (hopened.trans hadds).then_quiet hclosed⟩
  cases order with
  | call o =>
    have hopens := adds_openCall hex o
    rcases hopening : ex.openCall o.codeAddress o.transfer o.input o.targetGas o.withStipend
      o.context with ⟨outcome, last⟩ | ⟨m, started⟩
    · rw [carryOut_call_over runner hopening, Option.some.injEq] at h
      rw [hopening] at hopens
      refine ⟨_, .unopened fun child hstarts => ?_, h ▸ hopens⟩
      cases hstarts with
      | call hready =>
        rw [hopening] at hready
        cases hready
    · obtain ⟨exit, m', last, hrun, rfl⟩ := carryOut_call_ready hopening h
      rw [hopening] at hopens
      exact hran (.call hopening) hopens hrun (adds_leave _ _)
  | create o =>
    have hopens := adds_openCreation hex o
    rcases hopening : ex.openCreation o.caller (ex.nextCreation o.caller) o.value o.initCode
      o.targetGas with ⟨outcome, last⟩ | ⟨m, started⟩
    · rw [carryOut_create_over runner hopening, Option.some.injEq] at h
      rw [hopening] at hopens
      refine ⟨_, .unopened fun child hstarts => ?_, h ▸ hopens⟩
      cases hstarts with
      | create hready =>
        rw [hopening] at hready
        cases hready
    · obtain ⟨exit, m', inner, hrun, rfl⟩ := carryOut_create_ready hopening h
      rw [hopening] at hopens
      exact hran (.create hopening) hopens hrun (adds_closeCreation _ _ _ _)

end Orders

/-! ### Steps and runs -/

section Steps

variable {runner : Runner} {context : Context} {c : Configuration} {task : Task}
  {m done grown : Machine} {ex ready after : Executor} {control : Control} {p : Progress}

lemma performLoad_quiet (h : performLoad context m ex = (control, done, after)) :
    Adds ex.trace after.trace [] := by
  unfold performLoad at h
  split at h
  · cases h
    exact .refl _
  · next slot popped hpop =>
    dsimp only at h
    split at h
    · cases h
      exact .refl _
    · cases h
      exact adds_emit_quiet ex .runtime rfl

lemma perform_quiet {i : Instruction} (hopens : opensFrame i = false)
    (h : perform runner i context m ex = some (control, done, after)) :
    Adds ex.trace after.trace [] := by
  cases perform_effect h with
  | machine i => exact .refl _
  | loaded event =>
    simp only [perform, Option.some.injEq] at h
    exact performLoad_quiet h
  | stored event slot value =>
    simp only [perform] at h
    obtain ⟨f, -, -, hsame⟩ | ⟨⟨slot, value⟩, taken, -, hk⟩ := takeThen_cases h
    · rw [hsame]
      exact .refl _
    · simp only [Option.some.injEq, Prod.mk.injEq] at hk
      obtain ⟨-, -, hstored⟩ := hk
      rw [← hstored]
      exact adds_emit_quiet ex .runtime rfl
  | logged topics data => exact .refl _
  | created hcreate htake | called htake hcall => cases hopens
  | destroyed target =>
    have hemitted : Adds ex.trace (ex.emit .executor (.selfDestruct context.address target
        (ex.world.balance context.address))).trace [] := adds_emit_quiet ex .executor rfl
    have hmoved := transfer_trace ⟨context.address, target, ex.world.balance context.address⟩
      (ex.emit .executor (.selfDestruct context.address target
        (ex.world.balance context.address)))
    unfold Executor.markDestroyed
    cases htransfer : Executor.transfer ⟨context.address, target,
        ex.world.balance context.address⟩ (ex.emit .executor (.selfDestruct context.address target
          (ex.world.balance context.address))) with
    | mk result moved =>
      rw [htransfer] at hmoved
      rw [← hmoved] at hemitted
      simp only [htransfer]
      cases result <;> exact hemitted

lemma adds_charge (op : Opcode) (address : Address) (stack : Stack) (memoryEnd : Option Nat)
    (ex : Executor) :
    Adds ex.trace (Executor.charge op address stack memoryEnd ex).2.trace [] := by
  obtain ⟨f, h⟩ | ⟨e, h, -⟩ := charge_cases op address stack memoryEnd ex
  · rw [h]
    exact .refl _
  · rw [h]
    exact adds_record e ex

/-- A step that is performed is announced once it is paid for. -/
lemma Performs.announced (h : Performs c task grown ready) (hc : Heard c.executor.trace) :
    Adds c.executor.trace ready.trace
      [.step c.context.address task.op grown.position grown.stack grown.memory] := by
  cases h with
  | intro hvetted hcharge hgrow =>
    have hcharged := adds_charge task.op c.context.address c.machine.stack task.memoryEnd
      c.executor
    rw [hcharge] at hcharged
    exact hcharged.after_quiet (adds_emit (hcharged.heard hc).runtime rfl)

/-- The exit that a step comes to, none if the frame goes on. -/
def exitOf : Progress → Option Exit
  | .next _ _ => none
  | .exit exit _ _ => some exit

/-- A step that is performed reports what it comes to. -/
lemma Performs.reported (h : Performs c task grown ready)
    (hstep : step runner c.context c.machine c.executor = some p) :
    ∃ control done after, perform runner task.operation.behaviour c.context grown ready =
      some (control, done, after) ∧ Progress.executor p =
        after.emit .runtime (.stepResult (exitOf p) (Progress.machine p).returnValue) := by
  cases h with
  | intro hvetted hcharge hgrow =>
    simp only [step, hvetted, hcharge, hgrow, Task.dispatch, act_instruction] at hstep
    split at hstep
    · cases hstep
    · next control done after hperform =>
      split at hstep <;> cases hstep <;> exact ⟨control, done, after, hperform, rfl⟩

/-- A step that performs nothing ends its frame and leaves no structural event. -/
lemma step_rejected (hnone : c.performance? = none)
    (hstep : step runner c.context c.machine c.executor = some p) :
    (∀ m ex, p ≠ .next m ex) ∧ Adds c.executor.trace (Progress.executor p).trace [] := by
  have hcharged (task : Task) := adds_charge task.op c.context.address c.machine.stack
    task.memoryEnd c.executor
  have hperformed {task : Task} {grown : Machine} {ready : Executor}
      (hperforms : Performs c task grown ready) : False := by
    rw [performance?_iff.mpr hperforms] at hnone
    cases hnone
  cases step_stepped hstep with
  | refused hvetted => exact ⟨by simp, .refl _⟩
  | @unpaid task f mid hvetted hcharge | @tooLarge task f mid grown hvetted hcharge hgrow =>
    have hpaid := hcharged task
    rw [hcharge] at hpaid
    exact ⟨by simp, hpaid⟩
  | goesOn hvetted hcharge hgrow | ends hvetted hcharge hgrow =>
    exact (hperformed (.intro hvetted hcharge hgrow)).elim

lemma Orders.carries {order : Order} (h : Orders c task order ready)
    (hperforms : Performs c task grown ready)
    (hperform : perform runner task.operation.behaviour c.context grown ready =
      some (control, done, after)) : order.carryOut runner ready = some after := by
  have hperformance := performance?_iff.mpr hperforms
  cases h with
  | call hperforms' hinstruction htake =>
    rw [performance?_iff.mpr hperforms'] at hperformance
    cases hperformance
    rw [hinstruction] at hperform
    exact carryOut_of_takeThen_call htake hperform
  | create hperforms' hinstruction htake =>
    rw [performance?_iff.mpr hperforms'] at hperformance
    cases hperformance
    rw [hinstruction] at hperform
    exact carryOut_of_takeThen_create htake hperform

lemma step_traced (hs : IsStandard c.executor.instructions) (hc : Heard c.executor.trace)
    (hchildren : ∀ {order ready}, Orders c task order ready → FramesTraced runner ready order)
    (hperforms : Performs c task grown ready)
    (hstep : step runner c.context c.machine c.executor = some p) :
    ∃ inner, StepTrace c task inner ∧ Adds c.executor.trace (Progress.executor p).trace
      (.step c.context.address task.op grown.position grown.stack grown.memory ::
        (inner ++ [.stepResult (exitOf p) (Progress.machine p).returnValue])) := by
  have hannounced := hperforms.announced hc
  obtain ⟨control, done, after, hperform, hexecutor⟩ := hperforms.reported hstep
  have hinside : ∃ inner, StepTrace c task inner ∧ Adds ready.trace after.trace inner := by
    cases hopens : opensFrame task.operation.behaviour with
    | false => exact ⟨[], .plain hopens, perform_quiet hopens hperform⟩
    | true =>
      obtain ⟨order, horders⟩ := hperforms.orders hs hopens
      obtain ⟨events, horder, hadds⟩ := carryOut_traced (hannounced.heard hc) (hchildren horders)
        (horders.carries hperforms hperform)
      exact ⟨events, .ordered horders horder, hadds⟩
  obtain ⟨inner, htrace, hadds⟩ := hinside
  have hupToReport := hannounced.trans hadds
  refine ⟨inner, htrace, ?_⟩
  rw [hexecutor]
  exact hupToReport.trans (adds_emit (hupToReport.heard hc).runtime rfl)

end Steps

/-- A run leaves the events of its frame. -/
theorem run_traced {fuel : Nat} {c : Configuration} {exit : Exit} {m : Machine} {ex : Executor}
    (hs : IsStandard c.executor.instructions) (hc : Heard c.executor.trace)
    (h : run fuel c.context c.machine c.executor = some (exit, m, ex)) :
    ∃ events, FrameTrace c events ∧ Adds c.executor.trace ex.trace events := by
  induction fuel generalizing c exit m ex with
  | zero => cases h
  | succ fuel ih =>
    have hchildren {task : Task} {grown : Machine} {ready' : Executor}
        (hperforms : Performs c task grown ready') {order : Order} {ready : Executor}
        (horders : Orders c task order ready) : FramesTraced (run fuel) ready order := by
      intro child exit m last hstarts hheard hrun
      obtain ⟨grown, hready⟩ := horders.performs
      refine ih ?_ hheard hrun
      rw [hstarts.surroundings.1, hready.evolves.keeps.instructions]
      exact hs
    cases hperformance : c.performance? with
    | none =>
      obtain hstep | ⟨next, after, hstep, -⟩ := run_succ h
      · exact ⟨[], .rejected hperformance, (step_rejected hperformance hstep).2⟩
      · exact absurd rfl ((step_rejected hperformance hstep).1 next after)
    | some performance =>
      obtain ⟨task, grown, ready⟩ := performance
      have hperforms := performance?_iff.mp hperformance
      obtain hstep | ⟨next, after, hstep, hrest⟩ := run_succ h
      · obtain ⟨inner, hinner, hadds⟩ := step_traced hs hc (hchildren hperforms) hperforms hstep
        exact ⟨_, .ends hperforms hstep hinner, hadds⟩
      · obtain ⟨inner, hinner, hadds⟩ := step_traced hs hc (hchildren hperforms) hperforms hstep
        have hkeeps := (step_evolves (run_evolves fuel) hstep).keeps
        obtain ⟨later, hlater, hmore⟩ := ih (c := ⟨c.context, next, after⟩)
          (hkeeps.instructions ▸ hs) (hadds.heard hc) hrest
        refine ⟨_, .goesOn hperforms hstep hinner hlater, ?_⟩
        have hboth := hadds.trans hmore
        simp only [List.cons_append, List.append_assoc, List.nil_append] at hboth
        exact hboth

namespace Transaction

/-- What a transaction comes to: its exit, its output, and the executor that it leaves. -/
def conclude (ex : Executor) : Transaction → Option (Exit × Bytes × Executor)
  | call caller address value input gasLimit =>
    (ex.transactCall caller address value input gasLimit).map fun result =>
      (result.1.exit, result.1.output, result.2)
  | create caller value initCode gasLimit =>
    (ex.transactCreate caller value initCode gasLimit).map fun result =>
      (result.1.exit, result.1.output, result.2)

/-- The event that a transaction begins with. -/
def announcement (ex : Executor) : Transaction → Event
  | call caller address value input gasLimit => .transactCall caller address value input gasLimit
  | create caller value initCode gasLimit =>
    .transactCreate caller value initCode gasLimit (ex.nextCreation caller)

variable {ex after : Executor} {t : Transaction} {exit : Exit} {output : Bytes}

lemma execute_eq (ex : Executor) (t : Transaction) :
    t.execute ex = (t.conclude ex).map fun result => result.2.2 := by
  cases t with
  | call | create =>
    rw [execute, conclude, Option.map_map]
    rfl

lemma carries (h : t.conclude ex = some (exit, output, after)) :
    ∃ carried, t.order.carryOut (runs Executor.stepAllowance) (t.start ex) = some carried ∧
      after = carried.emit .executor (.exit exit output) := by
  cases t with
  | call caller address value input gasLimit =>
    obtain ⟨⟨outcome, last⟩, htransacted, hresult⟩ := Option.map_eq_some_iff.mp h
    cases hresult
    unfold Executor.transactCall at htransacted
    dsimp only at htransacted
    split at htransacted
    · cases htransacted
    · next outcome carried hnested =>
      cases htransacted
      exact ⟨carried, congrArg (Option.map Prod.snd) hnested, rfl⟩
  | create caller value initCode gasLimit =>
    obtain ⟨⟨outcome, last⟩, htransacted, hresult⟩ := Option.map_eq_some_iff.mp h
    cases hresult
    unfold Executor.transactCreate at htransacted
    dsimp only at htransacted
    split at htransacted
    · cases htransacted
    · next outcome carried hnested =>
      cases htransacted
      exact ⟨carried, congrArg (Option.map Prod.snd) hnested, rfl⟩

lemma concludes (hex : Ordinary ex) (t : Transaction) :
    ∃ exit output after, t.conclude ex = some (exit, output, after) := by
  obtain ⟨carried, event, -, hexecuted⟩ := t.carriedOut hex
  rw [execute_eq] at hexecuted
  obtain ⟨⟨exit, output, after⟩, hconcluded, -⟩ := Option.map_eq_some_iff.mp hexecuted
  exact ⟨exit, output, after, hconcluded⟩

lemma start_trace (hex : Heard ex.trace) (t : Transaction) :
    (t.start ex).trace = ⟨ex.trace.listeners, t.announcement ex :: ex.trace.latest⟩ := by
  cases t with
  | call | create => exact congrArg Executor.trace (if_pos hex.executor)

end Transaction

/-- Where frames and steps are listened to, a transaction adds one event that announces it, the
events of its order, and one last event with the exit and the output that it returns. Of those in
between, the structural ones are those of the order as it is carried out. -/
theorem traces_are_nested {ex : Executor} (hs : IsStandard ex.instructions)
    (hex : Heard ex.trace) (t : Transaction) :
    (Metered ex.rules → ∃ exit output after, t.conclude ex = some (exit, output, after)) ∧
    ∀ exit output after, t.conclude ex = some (exit, output, after) →
      ∃ middle, after.trace.events =
          ex.trace.events ++ t.announcement ex :: (middle ++ [.exit exit output]) ∧
        (∀ event ∈ middle, framesTransaction event = false) ∧
        OrderTrace (t.start ex) t.order (middle.filter isStructural) := by
  refine ⟨fun hm => Transaction.concludes ⟨hs, hm⟩ t, ?_⟩
  intro exit output after hconcluded
  obtain ⟨carried, hcarried, rfl⟩ := Transaction.carries hconcluded
  have hstart := Transaction.start_trace hex t
  have hheard : Heard (t.start ex).trace := by
    rw [hstart]
    exact ⟨hex.runtime, hex.executor⟩
  have hinstructions : (t.start ex).instructions = ex.instructions := (t.start_frame ex).2.2.1
  have hchildren : FramesTraced (runs Executor.stepAllowance) (t.start ex) t.order := by
    intro child exit m last hstarts hchild hrun
    refine run_traced ?_ hchild hrun
    rw [hstarts.surroundings.1, hinstructions]
    exact hs
  obtain ⟨events, htrace, hadds⟩ := carryOut_traced hheard hchildren hcarried
  have hinside := htrace.inside
  obtain ⟨middle, hmiddle, rfl⟩ := hadds.events
  refine ⟨middle, ?_, ?_, htrace⟩
  · have hexecutor := (hadds.heard hheard).executor
    have hlast : (carried.emit .executor (.exit exit output)).trace.events =
        carried.trace.events ++ [.exit exit output] := by
      rw [Executor.emit, if_pos hexecutor]
      exact List.reverse_cons
    have hfirst : (t.start ex).trace.events = ex.trace.events ++ [t.announcement ex] := by
      rw [hstart]
      exact List.reverse_cons
    rw [hlast, hmiddle, hfirst]
    simp only [List.append_assoc, List.cons_append, List.nil_append]
  · intro event hevent
    cases hframes : framesTransaction event with
    | false => rfl
    | true =>
      have hstructural : isStructural event = true := by
        cases event <;> first | rfl | cases hframes
      have hinner := hinside event (List.mem_filter.mpr ⟨hevent, hstructural⟩)
      rw [hframes] at hinner
      cases hinner

/-- An account that calls one whose code is invalid, and then starts a creation that it cannot
afford. Frames and steps are listened to. -/
def tracedExecutor : Executor :=
  let calling : Bytes :=
    #[0x60, 0, 0x60, 0, 0x60, 0, 0x60, 0, 0x60, 0, 0x60, 0xc, 0x61, 0xff, 0xff, 0xf1,
      0x60, 0, 0x60, 0, 0x60, 9, 0xf0]
  let accounts : Std.ExtTreeMap Address Account :=
    (Std.ExtTreeMap.empty.insert 0xb ⟨0, 0, ∅, calling⟩).insert 0xc ⟨0, 0, ∅, #[0xfe]⟩
  { Executor.new (.ofAccounts accounts) .homestead .zero with trace := ⟨[.runtime, .executor], []⟩ }

/-- Twelve brackets, with one call and one creation in two of them, inside the call and between the
two ends of the transaction. -/
theorem traces_are_nested_tracedExecutor :
    ∃ exit output after middle,
      (Transaction.call 0xa 0xb 0 #[] 200000).conclude tracedExecutor =
        some (exit, output, after) ∧
      after.trace.events =
        .transactCall 0xa 0xb 0 #[] 200000 :: (middle ++ [.exit exit output]) ∧
      (middle.filter isStructural).length = 27 := by
  have hinstructions : tracedExecutor.instructions = .homestead := rfl
  obtain ⟨hends, htraced⟩ := @traces_are_nested tracedExecutor (.inr hinstructions) ⟨rfl, rfl⟩
    (.call 0xa 0xb 0 #[] 200000)
  obtain ⟨exit, output, after, hconcluded⟩ := hends (metered_ofFork .homestead)
  obtain ⟨middle, hevents, hinside, -⟩ := htraced exit output after hconcluded
  have hcount : ((Transaction.call 0xa 0xb 0 #[] 200000).conclude tracedExecutor).map
      (fun result => result.2.2.trace.events.countP isStructural) = some 29 := by decide +kernel
  refine ⟨exit, output, after, middle, hconcluded, hevents, ?_⟩
  have hall : after.trace.events.countP isStructural = 29 := by
    rw [hconcluded, Option.map_some, Option.some.injEq] at hcount
    exact hcount
  have hnone : tracedExecutor.trace.events = [] := rfl
  rw [hevents, hnone, List.nil_append, List.countP_cons, List.countP_append,
    List.countP_eq_length_filter] at hall
  have hlast : [Event.exit exit output].countP isStructural = 1 := rfl
  have hfirst : isStructural ((Transaction.call 0xa 0xb 0 #[] 200000).announcement
      tracedExecutor) = true := rfl
  rw [hlast, hfirst, if_pos rfl] at hall
  omega

end ContractMachine.Proofs
