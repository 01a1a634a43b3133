import ContractMachine.Proofs.Evolution

/-!
# Calls and creations as brackets

A call or a creation that gets its gas enters one frame and closes it again, on every path.
The two bracket theorems say what lies between, given that whatever runs the frame lets the
executor evolve, and tie the way in which the frame is closed to the outcome that is returned.
-/

namespace ContractMachine.Proofs

/-- Whatever the runner does for a frame is something the account of the frame can do. -/
def EvolvingRunner (runner : Runner) : Prop :=
  ∀ {context : Context} {m m' : Machine} {ex ex' : Executor} {exit : Exit},
    runner context m ex = some (exit, m', ex') → Evolves context.address ex ex'

@[simp] lemma emit_world (ex : Executor) (listener : Listener) (event : Event) :
    (ex.emit listener event).world = ex.world := by
  obtain ⟨trace, h⟩ := emit_eq ex listener event
  rw [h]

@[simp] lemma emit_frame (ex : Executor) (listener : Listener) (event : Event) :
    (ex.emit listener event).frame = ex.frame := by
  obtain ⟨trace, h⟩ := emit_eq ex listener event
  rw [h]

@[simp] lemma emit_gas (ex : Executor) (listener : Listener) (event : Event) :
    (ex.emit listener event).gas = ex.gas := by
  simp [Executor.gas]

lemma ensureAccount_evolves (address : Address) (ex : Executor) :
    Evolves address ex (ex.ensureAccount address) := by
  unfold Executor.ensureAccount
  by_cases h : ex.world.exists? address = true
  · rw [if_pos h]
    exact .refl _ _
  · rw [if_neg h]
    exact .change (.materialize (by simpa using h))

lemma ensureAccount_frame (address : Address) (ex : Executor) :
    (ex.ensureAccount address).frame = ex.frame := by
  unfold Executor.ensureAccount
  by_cases h : ex.world.exists? address = true
  · rw [if_pos h]
  · rw [if_neg h]
    rfl

lemma ensureAccount_marked (address : Address) (ex : Executor) :
    (ex.ensureAccount address).world.marked = ex.world.marked := by
  unfold Executor.ensureAccount
  by_cases h : ex.world.exists? address = true
  · rw [if_pos h]
  · rw [if_neg h]
    rfl

lemma transfer_cases (t : Transfer) (ex : Executor) :
    (ex.world.balance t.source < t.value ∧ Executor.transfer t ex = (.error .outOfFund, ex)) ∨
      (¬ex.world.balance t.source < t.value ∧ Executor.transfer t ex = (.ok (), ex.onWorld fun w =>
        (w.subBalance t.source t.value).addBalance t.target t.value)) := by
  unfold Executor.transfer
  by_cases h : ex.world.balance t.source < t.value
  · exact .inl ⟨h, if_pos h⟩
  · exact .inr ⟨h, if_neg h⟩

lemma transfer_moved {t : Transfer} {ex moved : Executor}
    (h : Executor.transfer t ex = (.ok (), moved)) :
    ¬ex.world.balance t.source < t.value ∧ moved = ex.onWorld fun w =>
      (w.subBalance t.source t.value).addBalance t.target t.value := by
  obtain ⟨-, hshort⟩ | ⟨hfunds, hmoved⟩ := transfer_cases t ex
  · rw [hshort] at h
    cases h
  · rw [hmoved, Prod.mk.injEq] at h
    exact ⟨hfunds, h.2.symm⟩

lemma transfer_refused {t : Transfer} {ex last : Executor} {f : Fault}
    (h : Executor.transfer t ex = (.error f, last)) : last = ex := by
  obtain ⟨-, hshort⟩ | ⟨-, hmoved⟩ := transfer_cases t ex
  · rw [hshort, Prod.mk.injEq] at h
    exact h.2.symm
  · rw [hmoved] at h
    cases h

lemma transfer_evolves (self : Address) (t : Transfer) (ex : Executor) :
    Evolves self ex (Executor.transfer t ex).2 := by
  obtain ⟨_, h⟩ | ⟨hpaid, h⟩ := transfer_cases t ex
  · rw [h]
    exact .refl _ _
  · rw [h]
    exact .change (.move t hpaid)

lemma transfer_frame (t : Transfer) (ex : Executor) :
    (Executor.transfer t ex).2.frame = ex.frame := by
  obtain ⟨_, h⟩ | ⟨_, h⟩ := transfer_cases t ex <;> rw [h]
  rfl

lemma transferIfAny_evolves (self : Address) (t : Option Transfer) (ex : Executor) :
    Evolves self ex (Executor.transferIfAny t ex).2 := by
  cases t with
  | none => exact .refl _ _
  | some t => exact transfer_evolves self t ex

lemma transferIfAny_frame (t : Option Transfer) (ex : Executor) :
    (Executor.transferIfAny t ex).2.frame = ex.frame := by
  cases t with
  | none => rfl
  | some t => exact transfer_frame t ex

/-- A frame is over and closed, or ready to run with nothing taken from its gas. A frame that is
over was committed exactly if its outcome is a success. -/
inductive Opened {α : Type} (exitOf : α → Exit) (callee : Address) (ex : Executor)
    (gasLimit : Nat) : Opening α → Prop
  | closed {outcome : α} {inner : Executor} (closing : Closing)
    (h : Evolves callee (ex.enter gasLimit false) inner)
    (hclosing : (exitOf outcome).isSuccess = true ↔ closing = .commit) :
    Opened exitOf callee ex gasLimit (.over outcome (inner.close closing))
  | ready {m : Machine} {inner : Executor} (h : Evolves callee (ex.enter gasLimit false) inner)
    (hframe : inner.frame = (ex.enter gasLimit false).frame) :
    Opened exitOf callee ex gasLimit (.ready m inner)

lemma enterCall_opened (ex : Executor) (code input : Bytes) (gasLimit : Nat) (t : Option Transfer)
    (address : Address) :
    Opened CallOutcome.exit address ex gasLimit (ex.enterCall code input gasLimit t address) := by
  unfold Executor.enterCall
  have hready : Evolves address (ex.enter gasLimit false)
      (Executor.transferIfAny t ((ex.enter gasLimit false).ensureAccount address)).2 :=
    (ensureAccount_evolves _ _).trans (transferIfAny_evolves _ _ _)
  have hframe : (Executor.transferIfAny t ((ex.enter gasLimit false).ensureAccount address)).2.frame
      = (ex.enter gasLimit false).frame := by
    rw [transferIfAny_frame, ensureAccount_frame]
  by_cases hdeep : (ex.enter gasLimit false).isTooDeep = true
  · simp only [hdeep, if_true]
    exact .closed .revert (.refl _ _) (by simp [Exit.isSuccess])
  · simp only [hdeep]
    cases ht : Executor.transferIfAny t ((ex.enter gasLimit false).ensureAccount address) with
    | mk result inner =>
      rw [ht] at hready hframe
      cases result with
      | error f => exact .closed .revert hready (by simp [Exit.isSuccess])
      | ok u =>
        by_cases hcode : code.isEmpty = true
        · simp only [hcode, if_true]
          exact .closed .commit hready (by simp [Exit.isSuccess])
        · simp only [hcode]
          exact .ready hready hframe

lemma fresh_of_free {ex : Executor} {address : Address} (hfree : ex.isCollision address = false) :
    ex.world.nonce address = 0 ∧ (ex.world.code address).size = 0 := by
  simpa [Executor.isCollision] using hfree

lemma found_evolves {ex : Executor} {address : Address} (hfree : ex.isCollision address = false) :
    Evolves address ex (ex.onWorld fun w => w.createAccount address) :=
  .change (.found (fresh_of_free hfree).1 (fresh_of_free hfree).2)

lemma enterCreation_opened (ex : Executor) (caller address : Address) (value : Word)
    (initCode : Bytes) (gasLimit : Nat) :
    Opened Creation.exit address ex gasLimit
      (ex.enterCreation caller address value initCode gasLimit) := by
  unfold Executor.enterCreation
  by_cases hcollision : (ex.enter gasLimit false).isCollision address = true
  · simp only [hcollision, if_true]
    exact .closed .discard (.refl _ _) (by simp [Exit.isSuccess])
  · simp only [hcollision]
    have hready := (found_evolves (eq_false_of_ne_true hcollision)).trans
      (transfer_evolves address ⟨caller, address, value⟩ _)
    have hframe := transfer_frame ⟨caller, address, value⟩
      ((ex.enter gasLimit false).onWorld fun w => w.createAccount address)
    cases ht : Executor.transfer ⟨caller, address, value⟩
        ((ex.enter gasLimit false).onWorld fun w => w.createAccount address) with
    | mk result inner =>
      rw [ht] at hready hframe
      cases result with
      | error f => exact .closed .revert hready (by simp [Exit.isSuccess])
      | ok u => exact .ready hready hframe

/-- A creation that is over before it runs has failed. -/
lemma enterCreation_over (ex : Executor) (caller address : Address) (value : Word)
    (initCode : Bytes) (gasLimit : Nat) (outcome : Creation) (ex' : Executor)
    (h : ex.enterCreation caller address value initCode gasLimit = .over outcome ex') :
    outcome.exit.isSuccess = false := by
  simp only [Executor.enterCreation] at h
  repeat' split at h
  all_goals cases h
  all_goals rfl

lemma record_ok_working {e : Entry} {ex mid : Executor} (h : Executor.record e ex = (.ok (), mid)) :
    ex.frame.meter.hasFailed = false ∧ mid.frame.meter.hasFailed = false := by
  have hmid : mid = (Executor.record e ex).2 := by rw [h]
  have hresult : (ex.frame.meter.record ex.rules e).1 = .ok () := by
    rw [record_eq] at h
    exact congrArg Prod.fst h
  have hkeeps := (keeps_record e ex).hasFailed
  rw [← hmid] at hkeeps
  have hbooked : ex.frame.meter.record ex.rules e =
      (.ok (), (ex.frame.meter.record ex.rules e).2) := Prod.ext hresult rfl
  obtain ⟨l, hl, -⟩ := record_booked hbooked
  have hworking : ex.frame.meter.hasFailed = false := by simp [Meter.hasFailed, hl]
  exact ⟨hworking, hkeeps.trans hworking⟩

/-- A working meter takes back whatever a nested frame gives back. -/
lemma recordAll_giveBack_ok {f : Frame} {closing : Closing} {ex : Executor}
    (hex : ex.frame.meter.hasFailed = false) :
    (Executor.recordAll (f.giveBack closing) ex).1 = .ok () := by
  obtain ⟨l, hl⟩ : ∃ l, ex.frame.meter.ledger = some l := by
    cases hl : ex.frame.meter.ledger with
    | none => simp [Meter.hasFailed, hl] at hex
    | some l => exact ⟨l, rfl⟩
  cases closing <;>
    simp [Frame.giveBack, Executor.recordAll, Action.bind_apply, record_eq, Meter.record, hl]

lemma leave_ok {ex inner : Executor} {gasLimit : Nat} (closing : Closing)
    (h : Keeps (ex.enter gasLimit false) inner) (hex : ex.frame.meter.hasFailed = false) :
    Executor.leave closing inner = (.ok (), inner.close closing) := by
  apply Prod.ext
  · rw [leave_eq closing h]
    exact recordAll_giveBack_ok hex
  · rfl

lemma closeCall_closed {ex inner ex' : Executor} {gasLimit : Nat} {exit : Exit} {output : Bytes}
    {outcome : CallOutcome} (h : Keeps (ex.enter gasLimit false) inner)
    (hex : ex.frame.meter.hasFailed = false)
    (hclose : Executor.closeCall exit output inner = (outcome, ex')) :
    ∃ closing, ex' = inner.close closing ∧
      (outcome.exit.isSuccess = true ↔ closing = .commit) := by
  cases exit with
  | succeed halt =>
    simp only [Executor.closeCall, leave_ok .commit h hex, Prod.mk.injEq] at hclose
    obtain ⟨rfl, rfl⟩ := hclose
    exact ⟨.commit, rfl, by simp [Exit.isSuccess]⟩
  | fault f =>
    simp only [Executor.closeCall, Prod.mk.injEq] at hclose
    obtain ⟨rfl, rfl⟩ := hclose
    exact ⟨.discard, rfl, by simp [Exit.isSuccess]⟩
  | revert =>
    simp only [Executor.closeCall, Prod.mk.injEq] at hclose
    obtain ⟨rfl, rfl⟩ := hclose
    exact ⟨.revert, rfl, by simp [Exit.isSuccess]⟩

/-- A call that leads from `ex` to the second executor and ends with `exit`: it is refused its
gas, or it is a bracket around what its frame does. -/
inductive CallBracket (callee : Address) (gas : Nat) (gasLimit : Executor → Nat) (ex : Executor)
    (exit : Exit) : Executor → Prop
  | unpaid {event : Event} {f : Fault} {mid : Executor}
      (hpay : Executor.record (.cost gas) (ex.emit .executor event) = (.error f, mid))
      (hexit : exit = .fault f) : CallBracket callee gas gasLimit ex exit mid
  | closed {event : Event} {mid inner : Executor} {closing : Closing}
      (hpay : Executor.record (.cost gas) (ex.emit .executor event) = (.ok (), mid))
      (hinner : Evolves callee (mid.enter (gasLimit mid) false) inner)
      (hclosing : exit.isSuccess = true ↔ closing = .commit) :
      CallBracket callee gas gasLimit ex exit (inner.close closing)

/-- Paying for a frame keeps the surroundings. -/
lemma pay_keeps {e : Entry} {ex mid : Executor} {event : Event} {result : Except Fault Unit}
    (h : Executor.record e (ex.emit .executor event) = (result, mid)) : Keeps ex mid := by
  have hkeeps := (keeps_emit ex .executor event).trans (keeps_record e (ex.emit .executor event))
  rw [h] at hkeeps
  exact hkeeps

/-- A call is refused its gas, or its frame is entered. -/
lemma openCall_cases (ex : Executor) (codeAddress : Address) (t : Option Transfer) (input : Bytes)
    (targetGas : Option Nat) (withStipend : Bool) (context : Context) :
    (∃ event f mid, Executor.record (.cost (min (targetGas.getD ex.gas) ex.gas))
        (ex.emit .executor event) = (.error f, mid) ∧
      ex.openCall codeAddress t input targetGas withStipend context =
        .over ⟨.fault f, #[]⟩ mid) ∨
    ∃ event mid, Executor.record (.cost (min (targetGas.getD ex.gas) ex.gas))
        (ex.emit .executor event) = (.ok (), mid) ∧
      ex.openCall codeAddress t input targetGas withStipend context =
        mid.enterCall (mid.world.code codeAddress) input
          (mid.callGasLimit (min (targetGas.getD ex.gas) ex.gas) withStipend t) t
          context.address := by
  unfold Executor.openCall
  simp only [emit_gas]
  cases hpay : Executor.record (.cost (min (targetGas.getD ex.gas) ex.gas)) (ex.emit .executor
      (.call codeAddress t input targetGas ex.frame.readOnly context)) with
  | mk result mid =>
    cases result with
    | error f => exact .inl ⟨_, f, mid, hpay, rfl⟩
    | ok u => exact .inr ⟨_, mid, hpay, rfl⟩

/-- A call that ends is over once it is opened, or its frame is run and closed. -/
lemma call_cases {runner : Runner} {ex ex' : Executor} {codeAddress : Address}
    {t : Option Transfer} {input : Bytes} {targetGas : Option Nat} {withStipend : Bool}
    {context : Context} {outcome : CallOutcome}
    (h : ex.call runner codeAddress t input targetGas withStipend context =
      some (outcome, ex')) :
    ex.openCall codeAddress t input targetGas withStipend context = .over outcome ex' ∨
      ∃ m entered exit m' inner,
        ex.openCall codeAddress t input targetGas withStipend context = .ready m entered ∧
        runner context m entered = some (exit, m', inner) ∧
        Executor.closeCall exit m'.returnValue inner = (outcome, ex') := by
  unfold Executor.call at h
  cases hopening : ex.openCall codeAddress t input targetGas withStipend context with
  | «over» outcome' after =>
    simp only [hopening, Option.some.injEq, Prod.mk.injEq] at h
    obtain ⟨rfl, rfl⟩ := h
    exact .inl rfl
  | ready m entered =>
    simp only [hopening] at h
    cases hrun : runner context m entered with
    | none => simp [hrun] at h
    | some result =>
      obtain ⟨exit, m', inner⟩ := result
      simp only [hrun, Option.some.injEq] at h
      exact .inr ⟨m, entered, exit, m', inner, rfl, hrun, h⟩

theorem call_bracket {runner : Runner} (hr : EvolvingRunner runner) {ex ex' : Executor}
    {codeAddress : Address} {t : Option Transfer} {input : Bytes} {targetGas : Option Nat}
    {withStipend : Bool} {context : Context} {outcome : CallOutcome}
    (h : ex.call runner codeAddress t input targetGas withStipend context =
      some (outcome, ex')) :
    CallBracket context.address (min (targetGas.getD ex.gas) ex.gas)
      (fun mid => mid.callGasLimit (min (targetGas.getD ex.gas) ex.gas) withStipend t) ex
      outcome.exit ex' := by
  have hcases := call_cases h
  obtain ⟨event, f, mid, hpay, hopening⟩ | ⟨event, mid, hpay, hopening⟩ :=
    openCall_cases ex codeAddress t input targetGas withStipend context
  · rw [hopening] at hcases
    obtain hover | ⟨m, entered, exit, m', inner, hready, -⟩ := hcases
    · cases hover
      exact .unpaid hpay rfl
    · cases hready
  · have hopened := enterCall_opened mid (mid.world.code codeAddress) input
      (mid.callGasLimit (min (targetGas.getD ex.gas) ex.gas) withStipend t) t context.address
    rw [← hopening] at hopened
    obtain hover | ⟨m, entered, exit, m', inner, hready, hrun, hclose⟩ := hcases
    · rw [hover] at hopened
      cases hopened with
      | closed closing hinner hclosing => exact .closed hpay hinner hclosing
    · rw [hready] at hopened
      cases hopened with
      | ready hentered hframe =>
        have hinner := hentered.trans (hr hrun)
        obtain ⟨closing, rfl, hclosing⟩ :=
          closeCall_closed hinner.keeps (record_ok_working hpay).2 hclose
        exact .closed hpay hinner hclosing

/-- The executor with the nonce of a creator raised. -/
def raiseNonce (caller : Address) (ex : Executor) : Executor :=
  ex.onWorld fun w => w.setNonce caller (w.nonce caller + 1)

/-- A creation that leads from `ex` to the second executor and ends with `exit`. It may be refused
before it takes anything, or be refused its gas. Otherwise the nonce of its creator is raised, and
what follows is a bracket around what its frame does, with the code put in place last. -/
inductive CreationBracket (caller callee : Address) (value : Word) (gas : Nat) (ex : Executor) :
    Exit → Executor → Prop
  | refused {event : Event} {f : Fault} (h : ex.creationFault caller value = some f) :
    CreationBracket caller callee value gas ex (.fault f) (ex.emit .executor event)
  | unpaid {event : Event} {f : Fault} {mid : Executor}
      (h : ex.creationFault caller value = none)
      (hpay : Executor.record (.cost gas) (ex.emit .executor event) = (.error f, mid)) :
    CreationBracket caller callee value gas ex (.fault f) mid
  | founded {event : Event} {mid inner : Executor} (halt : Halt) (code : Bytes)
      (h : ex.creationFault caller value = none)
      (hpay : Executor.record (.cost gas) (ex.emit .executor event) = (.ok (), mid))
      (hinner : Evolves callee ((raiseNonce caller mid).enter gas false) inner) :
    CreationBracket caller callee value gas ex (.succeed halt)
      ((inner.close .commit).onWorld fun w => w.setCode callee code)
  | withoutCode {event : Event} {mid inner : Executor}
      (h : ex.creationFault caller value = none)
      (hpay : Executor.record (.cost gas) (ex.emit .executor event) = (.ok (), mid))
      (hinner : Evolves callee ((raiseNonce caller mid).enter gas false) inner) :
    CreationBracket caller callee value gas ex (.fault .codeStoreOutOfGas) (inner.close .commit)
  | failed {event : Event} {mid inner : Executor} {exit : Exit} {closing : Closing}
      (h : ex.creationFault caller value = none)
      (hpay : Executor.record (.cost gas) (ex.emit .executor event) = (.ok (), mid))
      (hinner : Evolves callee ((raiseNonce caller mid).enter gas false) inner)
      (hexit : exit.isSuccess = false) (hclosing : closing ≠ .commit) :
    CreationBracket caller callee value gas ex exit (inner.close closing)

lemma close_failMeter {ex inner : Executor} {gasLimit : Nat}
    (h : Keeps (ex.enter gasLimit false) inner) :
    inner.failMeter.close .discard = inner.close .discard := by
  have hwaiting : inner.waiting = (ex.frame, ex.world.snapshot) :: ex.waiting := h.waiting
  simp [Executor.close, Executor.leave, Executor.failMeter, Frame.giveBack, hwaiting]

/-- The ways in which the frame of a creation is closed. -/
inductive CreationClosed (created : Address) (inner : Executor) : Exit → Executor → Prop
  | founded {paid : Executor} (halt : Halt) (code : Bytes) (h : Evolves created inner paid) :
    CreationClosed created inner (.succeed halt)
      ((paid.close .commit).onWorld fun w => w.setCode created code)
  | withoutCode {paid : Executor} (h : Evolves created inner paid) :
    CreationClosed created inner (.fault .codeStoreOutOfGas) (paid.close .commit)
  | failed {paid : Executor} {exit : Exit} {closing : Closing} (h : Evolves created inner paid)
      (hexit : exit.isSuccess = false) (hclosing : closing ≠ .commit) :
    CreationClosed created inner exit (paid.close closing)

lemma depositCode_closed {ex inner ex' : Executor} {gasLimit : Nat} {created : Address}
    {halt : Halt} {code : Bytes} {outcome : Creation} (h : Keeps (ex.enter gasLimit false) inner)
    (hex : ex.frame.meter.hasFailed = false)
    (hclose : Executor.depositCode created halt code inner = (outcome, ex')) :
    CreationClosed created inner outcome.exit ex' := by
  unfold Executor.depositCode at hclose
  have hpaid : Evolves created inner (Executor.record (.deposit code.size) inner).2 :=
    .record created inner _
  cases hpay : Executor.record (.deposit code.size) inner with
  | mk result paid =>
    rw [hpay] at hpaid
    have hkeeps := h.trans hpaid.keeps
    cases result with
    | ok u =>
      simp only [hpay, leave_ok .commit hkeeps hex, Prod.mk.injEq] at hclose
      obtain ⟨rfl, rfl⟩ := hclose
      exact .founded halt code hpaid
    | error f =>
      by_cases hfails : paid.rules.failsOnUnpaidCode = true
      · simp only [hpay, if_pos hfails, close_failMeter hkeeps, Prod.mk.injEq] at hclose
        obtain ⟨rfl, rfl⟩ := hclose
        exact .failed hpaid rfl (by simp)
      · simp only [hpay, if_neg hfails, leave_ok .commit hkeeps hex, Prod.mk.injEq] at hclose
        obtain ⟨rfl, rfl⟩ := hclose
        exact .withoutCode hpaid

lemma closeCreation_closed {ex inner ex' : Executor} {gasLimit : Nat} {created : Address}
    {exit : Exit} {output : Bytes} {outcome : Creation}
    (h : Keeps (ex.enter gasLimit false) inner) (hex : ex.frame.meter.hasFailed = false)
    (hclose : Executor.closeCreation created exit output inner = (outcome, ex')) :
    CreationClosed created inner outcome.exit ex' := by
  cases exit with
  | succeed halt => exact depositCode_closed h hex hclose
  | fault f =>
    simp only [Executor.closeCreation, close_failMeter h, Prod.mk.injEq] at hclose
    obtain ⟨rfl, rfl⟩ := hclose
    exact .failed (.refl _ _) rfl (by simp)
  | revert =>
    simp only [Executor.closeCreation, Prod.mk.injEq] at hclose
    obtain ⟨rfl, rfl⟩ := hclose
    exact .failed (.refl _ _) rfl (by simp)

lemma creationFault_emit (ex : Executor) (listener : Listener) (event : Event) (caller : Address)
    (value : Word) :
    (ex.emit listener event).creationFault caller value = ex.creationFault caller value := by
  obtain ⟨trace, h⟩ := emit_eq ex listener event
  rw [h]
  rfl

/-- A creation is refused, is refused its gas, or has its frame entered. -/
lemma openCreation_cases (ex : Executor) (caller address : Address) (value : Word)
    (initCode : Bytes) (targetGas : Option Nat) :
    (∃ event f, ex.creationFault caller value = some f ∧
      ex.openCreation caller address value initCode targetGas =
        .over ⟨.fault f, none, #[]⟩ (ex.emit .executor event)) ∨
    (∃ event f mid, ex.creationFault caller value = none ∧
      Executor.record (.cost (min ex.gas (targetGas.getD ex.gas))) (ex.emit .executor event) =
        (.error f, mid) ∧
      ex.openCreation caller address value initCode targetGas =
        .over ⟨.fault f, none, #[]⟩ mid) ∨
    ∃ event mid, ex.creationFault caller value = none ∧
      Executor.record (.cost (min ex.gas (targetGas.getD ex.gas))) (ex.emit .executor event) =
        (.ok (), mid) ∧
      ex.openCreation caller address value initCode targetGas =
        (raiseNonce caller mid).enterCreation caller address value initCode
          (min ex.gas (targetGas.getD ex.gas)) := by
  unfold Executor.openCreation
  simp only [emit_gas, creationFault_emit]
  cases hfault : ex.creationFault caller value with
  | some f => exact .inl ⟨_, f, rfl, rfl⟩
  | none =>
    simp only
    cases hpay : Executor.record (.cost (min ex.gas (targetGas.getD ex.gas)))
        (ex.emit .executor (.create caller address value initCode targetGas)) with
    | mk result mid =>
      cases result with
      | error f => exact .inr (.inl ⟨_, f, mid, trivial, hpay, rfl⟩)
      | ok u => exact .inr (.inr ⟨_, mid, trivial, hpay, rfl⟩)

/-- A creation that ends is over once it is opened, or its frame is run and closed. -/
lemma create_cases {runner : Runner} {ex ex' : Executor} {caller : Address} {value : Word}
    {initCode : Bytes} {targetGas : Option Nat} {outcome : Creation}
    (h : ex.create runner caller value initCode targetGas = some (outcome, ex')) :
    ex.openCreation caller (ex.nextCreation caller) value initCode targetGas = .over outcome ex' ∨
      ∃ m entered exit m' inner,
        ex.openCreation caller (ex.nextCreation caller) value initCode targetGas =
          .ready m entered ∧
        runner ⟨ex.nextCreation caller, caller, value⟩ m entered = some (exit, m', inner) ∧
        Executor.closeCreation (ex.nextCreation caller) exit m'.returnValue inner =
          (outcome, ex') := by
  unfold Executor.create at h
  simp only at h
  generalize ex.nextCreation caller = address at h ⊢
  cases hopening : ex.openCreation caller address value initCode targetGas with
  | «over» outcome' after =>
    simp only [hopening, Option.some.injEq, Prod.mk.injEq] at h
    obtain ⟨rfl, rfl⟩ := h
    exact .inl rfl
  | ready m entered =>
    simp only [hopening] at h
    cases hrun : runner ⟨address, caller, value⟩ m entered with
    | none => simp [hrun] at h
    | some result =>
      obtain ⟨exit, m', inner⟩ := result
      simp only [hrun, Option.some.injEq] at h
      exact .inr ⟨m, entered, exit, m', inner, rfl, hrun, h⟩

theorem creation_bracket {runner : Runner} (hr : EvolvingRunner runner) {ex ex' : Executor}
    {caller : Address} {value : Word} {initCode : Bytes} {targetGas : Option Nat}
    {outcome : Creation}
    (h : ex.create runner caller value initCode targetGas = some (outcome, ex')) :
    CreationBracket caller (ex.nextCreation caller) value (min ex.gas (targetGas.getD ex.gas)) ex
      outcome.exit ex' := by
  have hcases := create_cases h
  generalize ex.nextCreation caller = address at hcases ⊢
  obtain ⟨event, f, hfault, hopening⟩ | ⟨event, f, mid, hfault, hpay, hopening⟩ |
    ⟨event, mid, hfault, hpay, hopening⟩ :=
    openCreation_cases ex caller address value initCode targetGas
  · rw [hopening] at hcases
    obtain hover | ⟨m, entered, exit, m', inner, hready, -⟩ := hcases
    · cases hover
      exact .refused hfault
    · cases hready
  · rw [hopening] at hcases
    obtain hover | ⟨m, entered, exit, m', inner, hready, -⟩ := hcases
    · cases hover
      exact .unpaid hfault hpay
    · cases hready
  · have hopened := enterCreation_opened (raiseNonce caller mid) caller address value initCode
      (min ex.gas (targetGas.getD ex.gas))
    obtain hover | ⟨m, entered, exit, m', inner, hready, hrun, hclose⟩ := hcases
    · have hexit := enterCreation_over _ _ _ _ _ _ _ _ (hopening.symm.trans hover)
      rw [← hopening, hover] at hopened
      cases hopened with
      | closed closing hinner hclosing =>
        exact .failed hfault hpay hinner hexit fun hc => by simp [hexit, hc] at hclosing
    · rw [← hopening, hready] at hopened
      cases hopened with
      | ready hentered hframe =>
        have hinner := hentered.trans (hr hrun)
        have hworking : (raiseNonce caller mid).frame.meter.hasFailed = false :=
          (record_ok_working hpay).2
        have hclosed := closeCreation_closed hinner.keeps hworking hclose
        generalize outcome.exit = exit' at hclosed ⊢
        cases hclosed with
        | founded halt code hpaid => exact .founded halt code hfault hpay (hinner.trans hpaid)
        | withoutCode hpaid => exact .withoutCode hfault hpay (hinner.trans hpaid)
        | failed hpaid hexit hclosing =>
          exact .failed hfault hpay (hinner.trans hpaid) hexit hclosing

end ContractMachine.Proofs
