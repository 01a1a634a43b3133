import ContractMachine.Proofs.InstructionTolls
import Mathlib.Algebra.GroupWithZero.Nat

/-!
# Every execution ends

A step that goes on leaves less gas than it found, and so does entering a frame. Hence a frame
ends within as many steps as it has gas, and its nested frames end within what is left of these.
-/

namespace ContractMachine.Proofs

lemma record_gas (e : Entry) (ex : Executor) :
    (Executor.record e ex).2.gas ≤ ex.gas + restoredGas e := by
  rw [record_eq]
  exact record_gas_le ex.rules ex.frame.meter e

lemma recordAll_gas (entries : List Entry) (ex : Executor) :
    (Executor.recordAll entries ex).2.gas ≤ ex.gas + (entries.map restoredGas).sum := by
  induction entries generalizing ex with
  | nil => exact Nat.le_refl _
  | cons e rest ih =>
    have hfirst := record_gas e ex
    simp only [Executor.recordAll, Action.bind_apply, List.map_cons, List.sum_cons]
    cases hr : Executor.record e ex with
    | mk result mid =>
      rw [hr] at hfirst
      cases result with
      | error f =>
        simp only at hfirst ⊢
        omega
      | ok u =>
        have hrest := ih mid
        simp only at hfirst hrest ⊢
        omega

/-- A frame gives back at most the gas that it was given. -/
lemma close_gas {ex inner : Executor} {gasLimit : Nat} (closing : Closing)
    (h : Keeps (ex.enter gasLimit false) inner) :
    (inner.close closing).gas ≤ ex.gas + gasLimit := by
  have hinner : inner.frame.meter.gas ≤ gasLimit := by
    have hlimit : inner.frame.meter.limit = gasLimit := h.limit
    have hgas := gas_le_limit inner.frame.meter
    omega
  have hgiven : ((inner.frame.giveBack closing).map restoredGas).sum ≤ gasLimit := by
    cases closing <;> simp [Frame.giveBack, restoredGas, hinner]
  rw [Executor.close, leave_eq closing h]
  have hrecorded := recordAll_gas (inner.frame.giveBack closing)
    { inner with
      frame := ex.frame
      waiting := ex.waiting
      world := closedWorld closing ex.world inner.world }
  refine Nat.le_trans hrecorded ?_
  exact Nat.add_le_add_left hgiven _

lemma paid_gas {ex mid : Executor} {event : Event} {amount : Nat}
    (h : Executor.record (.cost amount) (ex.emit .executor event) = (.ok (), mid)) :
    mid.gas + amount ≤ ex.gas := by
  have hpaid := record_cost_gas h
  rw [emit_gas] at hpaid
  exact hpaid

lemma unpaid_gas {ex mid : Executor} {event : Event} {amount : Nat} {f : Fault}
    (h : Executor.record (.cost amount) (ex.emit .executor event) = (.error f, mid)) :
    mid.gas ≤ ex.gas := by
  have hgas := record_gas (.cost amount) (ex.emit .executor event)
  rw [h, emit_gas] at hgas
  exact hgas

/-- A call adds at most what its frame is given beyond the gas it takes. -/
lemma CallBracket.gas {callee : Address} {gas bonus : Nat} {gasLimit : Executor → Nat}
    {ex ex' : Executor} {exit : Exit} (h : CallBracket callee gas gasLimit ex exit ex')
    (hlimit : ∀ mid : Executor, mid.rules = ex.rules → gasLimit mid ≤ gas + bonus) :
    ex'.gas ≤ ex.gas + bonus := by
  cases h with
  | unpaid hpay hexit => exact Nat.le_trans (unpaid_gas hpay) (Nat.le_add_right _ _)
  | @closed event mid inner closing hpay hinner hclosing =>
    have hpaid := paid_gas hpay
    have hclosed := close_gas closing hinner.keeps
    have hgiven := hlimit mid (pay_keeps hpay).rules
    omega

lemma CreationBracket.gas {caller callee : Address} {value : Word} {gas : Nat}
    {ex ex' : Executor} {exit : Exit} (h : CreationBracket caller callee value gas ex exit ex') :
    ex'.gas ≤ ex.gas := by
  have hclosed {event : Event} {mid inner : Executor} (closing : Closing)
      (hpay : Executor.record (.cost gas) (ex.emit .executor event) = (.ok (), mid))
      (hinner : Evolves callee ((raiseNonce caller mid).enter gas false) inner) :
      (inner.close closing).gas ≤ ex.gas := by
    have hpaid : mid.gas + gas ≤ ex.gas := paid_gas hpay
    exact Nat.le_trans (close_gas closing hinner.keeps) hpaid
  cases h with
  | refused hfault => exact Nat.le_of_eq (emit_gas _ _ _)
  | unpaid hfault hpay => exact unpaid_gas hpay
  | founded halt code hfault hpay hinner => exact hclosed .commit hpay hinner
  | withoutCode hfault hpay hinner => exact hclosed .commit hpay hinner
  | failed hfault hpay hinner hexit hclosing => exact hclosed _ hpay hinner

lemma bind_ok {σ α β : Type} {x : Action σ α} {k : α → Action σ β} {s s' : σ} {b : β}
    (h : (x >>= k) s = (.ok b, s')) : ∃ a mid, x s = (.ok a, mid) ∧ k a mid = (.ok b, s') := by
  rw [Action.bind_apply] at h
  cases hx : x s with
  | mk result mid =>
    cases result with
    | error f => simp [hx] at h
    | ok a =>
      rw [hx] at h
      exact ⟨a, mid, rfl, h⟩

lemma pop_ok {m m' : Machine} {w : Word} (h : Machine.pop m = (.ok w, m')) :
    m.stack.items = w :: m'.stack.items := by
  obtain ⟨code, input, position, start, stop, jumps, memory, items, limit⟩ := m
  cases items with
  | nil => simp [Machine.pop, Machine.onStack, Stack.pop] at h
  | cons top rest =>
    simp only [Machine.pop, Machine.onStack, Stack.pop, Prod.mk.injEq, Except.ok.injEq] at h
    obtain ⟨rfl, rfl⟩ := h
    rfl

/-- What a call takes off the stack: the gas, the target, and the value if it has one. -/
lemma takeCall_operands {scheme : CallScheme} {request : Machine.CallRequest} {m taken : Machine}
    (h : Machine.takeCall scheme m = (.ok request, taken)) :
    m.stack.peek 0 = .ok request.gas ∧
      (∃ target, m.stack.peek 1 = .ok target ∧ request.target = target.toAddress) ∧
      (scheme ≠ .delegateCall → m.stack.peek 2 = .ok request.value) := by
  obtain ⟨gas, m1, hgas, h⟩ := bind_ok h
  obtain ⟨target, m2, htarget, h⟩ := bind_ok h
  obtain ⟨value, m3, hvalue, h⟩ := bind_ok h
  obtain ⟨inOffset, m4, -, h⟩ := bind_ok h
  obtain ⟨inLength, m5, -, h⟩ := bind_ok h
  obtain ⟨outOffset, m6, -, h⟩ := bind_ok h
  obtain ⟨outLength, m7, -, h⟩ := bind_ok h
  obtain ⟨input, m8, -, h⟩ := bind_ok h
  cases h
  refine ⟨?_, ⟨target, ?_, rfl⟩, ?_⟩
  · simp [Stack.peek, pop_ok hgas]
  · simp [Stack.peek, pop_ok hgas, pop_ok htarget]
  · intro hscheme
    cases scheme with
    | delegateCall => exact absurd rfl hscheme
    | call | callCode => simp [Stack.peek, pop_ok hgas, pop_ok htarget, pop_ok hvalue]

/-- The value that a call moves is the one that its price depends on. -/
lemma sendsValue_eq {scheme : CallScheme} {request : Machine.CallRequest} {m taken : Machine}
    (context : Context) (h : Machine.takeCall scheme m = (.ok request, taken)) :
    Executor.sendsValue (context.transferFor scheme request.target request.value) =
      (sentValue scheme m.stack != 0) := by
  have hvalue := (takeCall_operands h).2.2
  cases scheme with
  | delegateCall => simp [Context.transferFor, Executor.sendsValue, sentValue]
  | call | callCode =>
    simp [Context.transferFor, Executor.sendsValue, sentValue, hvalue (by simp)]

lemma callGasLimit_le (ex : Executor) (gas : Nat) (withStipend : Bool) (t : Option Transfer) :
    ex.callGasLimit gas withStipend t ≤
      gas + if withStipend && Executor.sendsValue t then ex.rules.callStipend else 0 := by
  unfold Executor.callGasLimit Quantity.saturatingAdd
  by_cases hsends : (withStipend && Executor.sendsValue t) = true
  · rw [if_pos hsends, if_pos hsends]
    exact Nat.min_le_left _ _
  · rw [if_neg hsends]
    exact Nat.le_add_right _ _

lemma markDestroyed_frame (address target : Address) (ex : Executor) :
    (Executor.markDestroyed address target ex).2.frame = ex.frame := by
  unfold Executor.markDestroyed
  obtain ⟨-, h⟩ | ⟨-, h⟩ := transfer_cases ⟨address, target, ex.world.balance address⟩
    (ex.emit .executor (.selfDestruct address target (ex.world.balance address)))
  · simp only [h]
    exact emit_frame _ _ _
  · simp only [h]
    exact emit_frame _ _ _

lemma markDestroyed_gas (address target : Address) (ex : Executor) :
    (Executor.markDestroyed address target ex).2.gas = ex.gas := by
  rw [Executor.gas, markDestroyed_frame]
  rfl

/-- Performing an instruction adds at most its bonus. -/
theorem Effect.gas {runner : Runner} (hr : EvolvingRunner runner) {context : Context}
    {m : Machine} {ex ex' : Executor} {i : Instruction} (h : Effect runner context m ex i ex') :
    ex'.gas ≤ ex.gas + bonus ex.rules m.stack i := by
  cases h with
  | machine i => exact Nat.le_add_right _ _
  | loaded event => simp
  | stored event slot value =>
    have hgas := emit_gas ex .runtime event
    exact Nat.le_trans (Nat.le_of_eq hgas) (Nat.le_add_right _ _)
  | logged topics data => exact Nat.le_add_right _ _
  | created h => exact Nat.le_trans (creation_bracket hr h).gas (Nat.le_add_right _ _)
  | @called scheme request taken outcome _ htake h =>
    apply (call_bracket hr h).gas
    intro mid hrules
    have hlimit := callGasLimit_le mid (min (request.gas.toQuantity?.getD ex.gas) ex.gas) true
      (context.transferFor scheme request.target request.value)
    rw [sendsValue_eq context htake, hrules] at hlimit
    simpa [bonus] using hlimit
  | destroyed target =>
    have hgas := markDestroyed_gas context.address target ex
    exact Nat.le_trans (Nat.le_of_eq hgas) (Nat.le_add_right _ _)

/-- The executor runs a standard instruction set under metered rules. -/
structure Ordinary (ex : Executor) : Prop where
  standard : IsStandard ex.instructions
  metered : Metered ex.rules

lemma Ordinary.keeps {ex ex' : Executor} (hex : Ordinary ex) (h : Keeps ex ex') :
    Ordinary ex' := by
  constructor
  · rw [h.instructions]
    exact hex.standard
  · rw [h.rules]
    exact hex.metered

/-- The runner ends every frame of an ordinary executor that has less gas than this. -/
def EndsBelow (runner : Runner) (bound : Nat) : Prop :=
  ∀ context m (ex : Executor), Ordinary ex → ex.gas < bound →
    ∃ result, runner context m ex = some result

/-- A frame that is ready to run has the gas that it was given. -/
lemma opened_ready {α : Type} {exitOf : α → Exit} {callee : Address} {ex inner : Executor}
    {gasLimit : Nat} {m : Machine} (hex : Ordinary ex)
    (h : Opened exitOf callee ex gasLimit (.ready m inner)) :
    Ordinary inner ∧ inner.gas = gasLimit := by
  have hentered : Ordinary (ex.enter gasLimit false) := ⟨hex.standard, hex.metered⟩
  cases h with
  | ready hinner hframe =>
    refine ⟨hentered.keeps hinner.keeps, ?_⟩
    simp [Executor.gas, hframe, Executor.enter, Frame.child, Meter.gas, Meter.new]

lemma call_ends {runner : Runner} {bound : Nat} (hrunner : EndsBelow runner bound)
    {ex : Executor} (hex : Ordinary ex) (codeAddress : Address) (t : Option Transfer)
    (input : Bytes) (targetGas : Option Nat) (withStipend : Bool) (context : Context)
    (hbound : ex.gas + (if withStipend && Executor.sendsValue t then ex.rules.callStipend else 0) <
      bound) :
    ∃ outcome ex', ex.call runner codeAddress t input targetGas withStipend context =
      some (outcome, ex') := by
  unfold Executor.call
  obtain ⟨event, f, mid, hpay, hopening⟩ | ⟨event, mid, hpay, hopening⟩ :=
    openCall_cases ex codeAddress t input targetGas withStipend context
  · simp only [hopening]
    exact ⟨_, _, rfl⟩
  · have hkeeps := pay_keeps hpay
    have hopened := enterCall_opened mid (mid.world.code codeAddress) input
      (mid.callGasLimit (min (targetGas.getD ex.gas) ex.gas) withStipend t) t context.address
    rw [← hopening] at hopened
    cases hready : ex.openCall codeAddress t input targetGas withStipend context with
    | «over» outcome inner => exact ⟨_, _, rfl⟩
    | ready m inner =>
      rw [hready] at hopened
      obtain ⟨hinner, hgas⟩ := opened_ready (hex.keeps hkeeps) hopened
      have hlimit := callGasLimit_le mid (min (targetGas.getD ex.gas) ex.gas) withStipend t
      rw [hkeeps.rules] at hlimit
      have hless : inner.gas < bound := by omega
      obtain ⟨⟨exit, m', after⟩, hrun⟩ := hrunner context m inner hinner hless
      simp only [hrun]
      exact ⟨_, _, rfl⟩

lemma create_ends {runner : Runner} {bound : Nat} (hrunner : EndsBelow runner bound)
    {ex : Executor} (hex : Ordinary ex) (caller : Address) (value : Word) (initCode : Bytes)
    (targetGas : Option Nat) (hbound : ex.gas < bound) :
    ∃ outcome ex', ex.create runner caller value initCode targetGas = some (outcome, ex') := by
  unfold Executor.create
  simp only
  generalize ex.nextCreation caller = address
  obtain ⟨event, f, hfault, hopening⟩ | ⟨event, f, mid, hfault, hpay, hopening⟩ |
    ⟨event, mid, hfault, hpay, hopening⟩ :=
    openCreation_cases ex caller address value initCode targetGas
  · simp only [hopening]
    exact ⟨_, _, rfl⟩
  · simp only [hopening]
    exact ⟨_, _, rfl⟩
  · have hopened := enterCreation_opened (raiseNonce caller mid) caller address value initCode
      (min ex.gas (targetGas.getD ex.gas))
    rw [← hopening] at hopened
    cases hready : ex.openCreation caller address value initCode targetGas with
    | «over» outcome inner => exact ⟨_, _, rfl⟩
    | ready m inner =>
      rw [hready] at hopened
      have hmid := hex.keeps (pay_keeps hpay)
      have hraised : Ordinary (raiseNonce caller mid) := ⟨hmid.standard, hmid.metered⟩
      obtain ⟨hinner, hgas⟩ := opened_ready hraised hopened
      have hless : inner.gas < bound := by omega
      obtain ⟨⟨exit, m', after⟩, hrun⟩ := hrunner ⟨address, caller, value⟩ m inner hinner hless
      simp only [hrun]
      exact ⟨_, _, rfl⟩

lemma takeThen_ends {α : Type} {x : Action Machine α} {m : Machine} {ex : Executor}
    {k : α → Machine → Executor → Option (Control × Machine × Executor)}
    (hk : ∀ a taken, x m = (.ok a, taken) → ∃ result, k a taken ex = some result) :
    ∃ result, takeThen x m ex k = some result := by
  unfold takeThen
  cases hx : x m with
  | mk result taken =>
    cases result with
    | error f => exact ⟨_, rfl⟩
    | ok a => exact hk a taken hx

/-- Performing an instruction ends if the frames end that it enters. -/
lemma perform_ends {runner : Runner} {bound : Nat} (hrunner : EndsBelow runner bound)
    {ex : Executor} (hex : Ordinary ex) (i : Instruction) (context : Context) (m : Machine)
    (hbound : endsFrame i = false → ex.gas + bonus ex.rules m.stack i < bound) :
    ∃ result, perform runner i context m ex = some result := by
  cases i with
  | sstore | log | ret =>
    simp only [perform]
    exact takeThen_ends fun a taken _ => ⟨_, rfl⟩
  | selfDestruct =>
    simp only [perform]
    apply takeThen_ends
    intro target taken _
    obtain ⟨result, after⟩ := Executor.markDestroyed context.address target.toAddress ex
    cases result <;> exact ⟨_, rfl⟩
  | create =>
    simp only [perform]
    apply takeThen_ends
    rintro ⟨value, initCode⟩ taken -
    obtain ⟨outcome, after, hcreate⟩ :=
      create_ends hrunner hex context.address value initCode none (hbound rfl)
    simp only [hcreate]
    exact ⟨_, rfl⟩
  | call scheme =>
    simp only [perform]
    apply takeThen_ends
    intro request taken htake
    have hsends := sendsValue_eq context htake
    obtain ⟨outcome, after, hcall⟩ := call_ends hrunner hex request.target
      (context.transferFor scheme request.target request.value) request.input
      request.gas.toQuantity? true (context.forCall scheme request.target request.value)
      (by simpa [hsends, bonus] using hbound rfl)
    simp only [hcall]
    exact ⟨_, rfl⟩
  | invalid =>
    simp only [perform]
    cases m.opcode? <;> exact ⟨_, rfl⟩
  | _ => exact ⟨_, rfl⟩

lemma standard_behaviour (i : Instruction) : (Operation.standard i).behaviour = i := by
  cases i with
  | call scheme => cases scheme <;> rfl
  | _ => rfl

lemma standard_reverts (i : Instruction) : (Operation.standard i).reverts = false := by
  cases i with
  | call scheme => cases scheme <;> rfl
  | _ => rfl

lemma vet_valid {ex : Executor} {op : Opcode} {o : Operation} {stack : Stack}
    {memoryEnd : Option Nat} (h : ex.vet op o stack = .ok memoryEnd) : o.valid = true := by
  cases hvalid : o.valid with
  | true => rfl
  | false =>
    unfold Executor.vet at h
    simp [hvalid, bind, Except.bind, throw, throwThe, MonadExceptOf.throw] at h

/-- The tasks of a standard set are valid operations of instructions that their opcodes name. -/
lemma task_of_standard {ex : Executor} (hs : IsStandard ex.instructions) {m : Machine}
    {task : Task} (h : ex.admit m = .ok task) :
    task.operation.valid = true ∧ task.op.instruction? = some task.operation.behaviour ∧
      task.operation = .standard task.operation.behaviour := by
  unfold Executor.admit at h
  cases hop : m.opcode? with
  | none => simp [hop] at h
  | some op =>
    cases hvet : ex.vet op (ex.instructions.get op) m.stack with
    | error f => simp [hop, hvet] at h
    | ok memoryEnd =>
      simp only [hop, hvet, Except.ok.injEq] at h
      subst h
      have hvalid := vet_valid hvet
      obtain ⟨i, hi, hget⟩ := standard_get hs hvalid
      simp only [hget, standard_behaviour]
      exact ⟨by rw [← hget]; exact hvalid, hi, trivial⟩

section Admitted

variable {β φ : Type} [Behaviour β φ] {ex : Executor β φ} {m : Machine} {task : Task β φ}

lemma task_of_admitted (h : ex.admit m = .ok task) :
    m.opcode? = some task.op ∧
      ex.vet task.op task.operation m.stack = .ok task.memoryEnd := by
  unfold Executor.admit at h
  cases hop : m.opcode? with
  | none => simp [hop] at h
  | some op =>
    cases hvet : ex.vet op (ex.instructions.get op) m.stack with
    | error f => simp [hop, hvet] at h
    | ok memoryEnd =>
      simp only [hop, hvet, Except.ok.injEq] at h
      subst h
      exact ⟨rfl, hvet⟩

lemma operation_of_admitted (h : ex.admit m = .ok task) :
    task.operation = ex.instructions.get task.op := by
  unfold Executor.admit at h
  cases hop : m.opcode? with
  | none => simp [hop] at h
  | some op =>
    cases hvet : ex.vet op (ex.instructions.get op) m.stack with
    | error f => simp [hop, hvet] at h
    | ok memoryEnd =>
      simp only [hop, hvet, Except.ok.injEq] at h
      subst h
      rfl

end Admitted

/-- An operation that goes on is none that ends its frame. -/
lemma endsFrame_of_goesOn {task : Task} {control : Control} {done next : Machine}
    (hvalid : task.operation.valid = true)
    (hstandard : task.operation = .standard task.operation.behaviour)
    (hconclude : task.conclude control done = (none, next)) :
    endsFrame task.operation.behaviour = false := by
  have hhalts : task.operation.halts = false := by
    cases hh : task.operation.halts with
    | false => rfl
    | true => cases control <;> simp [Task.conclude, hh] at hconclude
  generalize task.operation.behaviour = i at hstandard
  rw [hstandard] at hvalid hhalts
  cases i with
  | stop | ret | selfDestruct | invalid => simp_all [Operation.standard, Operation.undefined,
      Operation.halting, Operation.writing, Operation.touching, Operation.plain]
  | _ => rfl

lemma grow_stack {memoryEnd : Option Nat} {m grown : Machine} {result : Except Fault Unit}
    (h : Machine.grow memoryEnd m = (result, grown)) : grown.stack = m.stack := by
  cases memoryEnd with
  | none =>
    simp only [Machine.grow, Action.pure_apply, Prod.mk.injEq] at h
    rw [h.2]
  | some stop =>
    simp only [Machine.grow, Machine.onMemory, Prod.mk.injEq] at h
    rw [← h.2]

lemma charge_keeps {op : Opcode} {address : Address} {stack : Stack} {memoryEnd : Option Nat}
    {ex mid : Executor} {result : Except Fault Unit}
    (h : Executor.charge op address stack memoryEnd ex = (result, mid)) : Keeps ex mid := by
  have hkeeps := (charge_evolves address op address stack memoryEnd ex).keeps
  rw [h] at hkeeps
  exact hkeeps

/-- A step that goes on leaves less gas than it found. -/
theorem step_gas_lt {runner : Runner} (hr : EvolvingRunner runner) {context : Context}
    {m next : Machine} {ex after : Executor} (hex : Ordinary ex)
    (h : step runner context m ex = some (.next next after)) : after.gas < ex.gas := by
  cases step_stepped h with
  | @goesOn task mid performed grown done _ control before event hvetted hcharge hgrow hperform
      hconclude =>
    obtain ⟨hvalid, hop, hstandard⟩ := task_of_standard hex.standard hvetted
    have hpaid := charge_toll hex.metered hop hcharge
    have hless := bonus_lt_toll hex.metered m.stack
      (endsFrame_of_goesOn hvalid hstandard hconclude)
    have hgains := (perform_effect hperform).gas hr
    have hkeeps := (charge_keeps hcharge).trans (keeps_emit mid .runtime before)
    rw [emit_gas, grow_stack hgrow, hkeeps.rules] at hgains
    rw [emit_gas]
    omega

/-- A step ends if the frames end that have less gas than its own. -/
theorem step_ends {runner : Runner} {ex : Executor} (hrunner : EndsBelow runner ex.gas)
    (hex : Ordinary ex) (context : Context) (m : Machine) :
    ∃ p, step runner context m ex = some p := by
  unfold step
  cases hvetted : ex.admit m with
  | error exit => exact ⟨_, rfl⟩
  | ok task =>
    obtain ⟨hvalid, hop, hstandard⟩ := task_of_standard hex.standard hvetted
    simp only
    cases hcharge : Executor.charge task.op context.address m.stack task.memoryEnd ex with
    | mk result mid =>
      cases result with
      | error f => exact ⟨_, rfl⟩
      | ok u =>
        simp only
        cases hgrow : Machine.grow task.memoryEnd m with
        | mk result grown =>
          cases result with
          | error f => exact ⟨_, rfl⟩
          | ok u =>
            simp only [Task.dispatch, act_instruction]
            generalize Event.step context.address task.op grown.position grown.stack
              grown.memory = event
            have hkeeps := (charge_keeps hcharge).trans (keeps_emit mid .runtime event)
            have hbound (hends : endsFrame task.operation.behaviour = false) :
                (mid.emit .runtime event).gas + bonus (mid.emit .runtime event).rules grown.stack
                  task.operation.behaviour < ex.gas := by
              have hpaid := charge_toll hex.metered hop hcharge
              have hless := bonus_lt_toll hex.metered m.stack hends
              rw [emit_gas, grow_stack hgrow, hkeeps.rules]
              omega
            obtain ⟨⟨control, done, after⟩, hperform⟩ := perform_ends hrunner (hex.keeps hkeeps)
              task.operation.behaviour context grown hbound
            simp only [hperform]
            obtain ⟨exit, last⟩ := task.conclude control done
            cases exit <;> exact ⟨_, rfl⟩

/-- A frame ends within as many steps as it has gas, and one more. -/
theorem run_ends {fuel : Nat} (context : Context) (m : Machine) {ex : Executor}
    (hex : Ordinary ex) (hfuel : ex.gas < fuel) :
    ∃ result, run fuel context m ex = some result := by
  induction fuel generalizing context m ex with
  | zero => omega
  | succ fuel ih =>
    -- The frames that the first step enters have less gas than `ex`, so the fuel left is enough
    -- for them as it is for the steps that follow.
    have hrunner : EndsBelow (run fuel) ex.gas := by
      intro context m inner hinner hgas
      apply ih context m hinner
      omega
    obtain ⟨p, hstep⟩ := step_ends hrunner hex context m
    simp only [run, hstep]
    cases p with
    | exit exit last after => exact ⟨_, rfl⟩
    | next next after =>
      have hkeeps : Keeps ex after := (step_evolves (run_evolves fuel) hstep).keeps
      have hless := step_gas_lt (run_evolves fuel) hex hstep
      apply ih context next (hex.keeps hkeeps)
      omega

end ContractMachine.Proofs
