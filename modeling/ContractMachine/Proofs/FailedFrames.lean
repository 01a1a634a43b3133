import ContractMachine.Proofs.AccountLookup
import ContractMachine.Proofs.FrameExecution

/-!
# Failed frames leave no trace

A frame that fails is closed by going back to the snapshot at which it was entered, so a failed
call leaves the world as it was. A failed creation leaves it as it was but for the nonce of its
creator, which is raised before the frame is entered. Creations rely on the meter of the frame
around them to work, which holds in every executor that can be reached.
-/

namespace ContractMachine.Proofs

/-- The executors that arise from a new one: its owner may set it up and change the world between
transactions, and transactions charge, change the world, and enter and close frames. -/
inductive Reachable : Executor → Prop
  | new (world : World) (rules : Rules) (environment : Environment) :
    Reachable (.new world rules environment)
  | instructed {ex : Executor} (h : Reachable ex) (instructions : InstructionSet) :
    Reachable { ex with instructions := instructions }
  | watched {ex : Executor} (h : Reachable ex) (trace : Trace) :
    Reachable { ex with trace := trace }
  | restricted {ex : Executor} (h : Reachable ex) (readOnly : Bool) :
    Reachable { ex with readOnly := readOnly }
  | changed {ex : Executor} (h : Reachable ex) (w : World) : Reachable { ex with world := w }
  | reset {ex : Executor} (h : Reachable ex) (caller : Address) (gasLimit : Nat) :
    Reachable (ex.reset caller gasLimit)
  | recorded {ex : Executor} (h : Reachable ex) (e : Entry) : Reachable (Executor.record e ex).2
  | entered {ex : Executor} (h : Reachable ex) (gasLimit : Nat) (readOnly : Bool) :
    Reachable (ex.enter gasLimit readOnly)
  | closed {ex : Executor} (h : Reachable ex) (closing : Closing) : Reachable (ex.close closing)

/-- The meters of the frame that runs and of the frames around it work. -/
def WorkingMeters (ex : Executor) : Prop :=
  ex.frame.meter.hasFailed = false ∧ ∀ p ∈ ex.waiting, p.1.meter.hasFailed = false

lemma close_workingMeters {ex : Executor} (closing : Closing) (h : WorkingMeters ex) :
    WorkingMeters (ex.close closing) := by
  obtain ⟨hframe, hwaiting⟩ := h
  unfold Executor.close Executor.leave
  cases hw : ex.waiting with
  | nil => exact ⟨hframe, by simp [hw]⟩
  | cons p rest =>
    obtain ⟨parent, snapshot⟩ := p
    rw [hw] at hwaiting
    have hparent := hwaiting (parent, snapshot) List.mem_cons_self
    have hkeeps := keeps_recordAll (ex.frame.giveBack closing)
      { ex with
        frame := parent
        waiting := rest
        world := if closing = .commit then ex.world else ex.world.revertTo snapshot }
    refine ⟨hkeeps.hasFailed.trans hparent, ?_⟩
    rw [hkeeps.waiting]
    intro q hq
    exact hwaiting q (List.mem_cons_of_mem _ hq)

theorem Reachable.workingMeters {ex : Executor} (h : Reachable ex) : WorkingMeters ex := by
  induction h with
  | new world rules environment => exact ⟨rfl, by simp [Executor.new]⟩
  | instructed _ _ ih => exact ih
  | watched _ _ ih => exact ih
  | restricted _ _ ih => exact ih
  | changed _ _ ih => exact ih
  | reset _ caller gasLimit ih => exact ⟨rfl, by simp [Executor.reset]⟩
  | @recorded ex _ e ih =>
    have hkeeps := keeps_record e ex
    exact ⟨hkeeps.hasFailed.trans ih.1, ih.2⟩
  | entered _ gasLimit readOnly ih =>
    refine ⟨rfl, ?_⟩
    intro p hp
    obtain rfl | hp := List.mem_cons.mp hp
    · exact ih.1
    · exact ih.2 p hp
  | closed _ closing ih => exact close_workingMeters closing ih

/-- Whatever a frame makes of a reachable executor is reachable. -/
theorem Evolves.reachable {self : Address} {ex ex' : Executor} (h : Evolves self ex ex')
    (hex : Reachable ex) : Reachable ex' := by
  induction h with
  | refl self ex => exact hex
  | trans _ _ ih ih' => exact ih' (ih hex)
  | record self ex e => exact .recorded hex e
  | emit self ex listener event =>
    obtain ⟨trace, htrace⟩ := emit_eq ex listener event
    rw [htrace]
    exact .watched hex trace
  | change h => exact .changed hex _
  | nested closing _ ih => exact .closed (ih (.entered hex _ _)) closing

/-- Instructions of a reachable frame are performed on a reachable executor. -/
theorem Reachable.charged {ex : Executor} (h : Reachable ex) (op : Opcode) (address : Address)
    (stack : Stack) (memoryEnd : Option Nat) (event : Event) :
    Reachable ((Executor.charge op address stack memoryEnd ex).2.emit .runtime event) := by
  have hcharged := (charge_evolves address op address stack memoryEnd ex).reachable h
  exact (Evolves.emit address _ .runtime event).reachable hcharged

/-- The frame of a call or of a creation starts to run on a reachable executor. -/
theorem Reachable.opened {α : Type} {exitOf : α → Exit} {callee : Address} {ex inner : Executor}
    {gasLimit : Nat} {m : Machine} (h : Reachable ex)
    (hopened : Opened exitOf callee ex gasLimit (.ready m inner)) : Reachable inner := by
  cases hopened with
  | ready hinner hframe => exact hinner.reachable (.entered h gasLimit false)

lemma recordAll_world (entries : List Entry) (ex : Executor) :
    (Executor.recordAll entries ex).2.world = ex.world := by
  induction entries generalizing ex with
  | nil => rfl
  | cons e rest ih =>
    simp only [Executor.recordAll, Action.bind_apply, record_eq]
    cases (ex.frame.meter.record ex.rules e).1 with
    | error f => rfl
    | ok u => exact ih _

lemma close_world {ex inner : Executor} {gasLimit : Nat} (closing : Closing)
    (h : Keeps (ex.enter gasLimit false) inner) :
    (inner.close closing).world = closedWorld closing ex.world inner.world := by
  rw [Executor.close, leave_eq closing h, recordAll_world]

/-- Paying for a frame changes nothing in the world. -/
lemma pay_world {e : Entry} {ex mid : Executor} {event : Event} {result : Except Fault Unit}
    (h : Executor.record e (ex.emit .executor event) = (result, mid)) : mid.world = ex.world := by
  have hmid := congrArg (fun r => r.2.world) h
  simpa [record_eq] using hmid.symm

lemma CallBracket.world_of_failed {callee : Address} {gas : Nat} {gasLimit : Executor → Nat}
    {ex ex' : Executor} {exit : Exit} (h : CallBracket callee gas gasLimit ex exit ex')
    (hexit : exit.isSuccess = false) : ex'.world = ex.world := by
  cases h with
  | unpaid hpay _ => exact pay_world hpay
  | @closed event mid inner closing hpay hinner hclosing =>
    have hundone : closing ≠ .commit := by
      intro hc
      simp [hclosing.mpr hc] at hexit
    rw [close_world closing hinner.keeps, closedWorld, if_neg hundone]
    exact pay_world hpay

/-- A creation is refused at once if it would be too deep, if its creator cannot pay for the
value, or if the nonce of its creator cannot be raised. -/
def CreationRefused (ex : Executor) (caller : Address) (value : Word) : Prop :=
  (∃ depth, ex.frame.depth = some depth ∧ ex.rules.callDepthLimit < depth + 1) ∨
    ex.world.balance caller < value ∨ ex.world.nonce caller = 0xffffffffffffffff

lemma creationFault_eq_none {ex : Executor} {caller : Address} {value : Word} :
    ex.creationFault caller value = none ↔ ¬CreationRefused ex caller value := by
  have hdeep : (ex.frame.depth.any fun depth => decide (ex.rules.callDepthLimit < depth + 1)) = true
      ↔ ∃ depth, ex.frame.depth = some depth ∧ ex.rules.callDepthLimit < depth + 1 := by
    cases ex.frame.depth <;> simp
  unfold Executor.creationFault CreationRefused
  rw [← hdeep]
  repeat' split
  all_goals simp_all

/-- A working meter can always pay what it has. -/
lemma record_cost_ne_error {ex mid : Executor} {event : Event} {amount : Nat} {f : Fault}
    (hex : ex.frame.meter.hasFailed = false) (hle : amount ≤ ex.gas) :
    Executor.record (.cost amount) (ex.emit .executor event) ≠ (.error f, mid) := by
  intro h
  have hresult := congrArg Prod.fst h
  have hgas : ¬ex.frame.meter.gas < amount := by
    have hle' : amount ≤ ex.frame.meter.gas := hle
    omega
  cases hl : ex.frame.meter.ledger with
  | none => simp [Meter.hasFailed, hl] at hex
  | some l => simp [record_eq, Meter.record, Meter.take, hl, hgas] at hresult

lemma CreationBracket.world_of_failed {caller callee : Address} {value : Word} {gas : Nat}
    {ex ex' : Executor} {exit : Exit} (h : CreationBracket caller callee value gas ex exit ex')
    (hex : ex.frame.meter.hasFailed = false) (hgas : gas ≤ ex.gas)
    (hexit : exit.isSuccess = false) (hstored : exit ≠ .fault .codeStoreOutOfGas) :
    (CreationRefused ex caller value → ex'.world = ex.world) ∧
      (¬CreationRefused ex caller value →
        ex'.world = ex.world.setNonce caller (ex.world.nonce caller + 1)) := by
  cases h with
  | refused hfault =>
    refine ⟨fun _ => emit_world _ _ _, ?_⟩
    intro haccepted
    rw [creationFault_eq_none.mpr haccepted] at hfault
    cases hfault
  -- The world would be left as it was, but a working meter does not refuse what it has.
  | unpaid hfault hpay => exact absurd hpay (record_cost_ne_error hex hgas)
  | founded halt code hfault hpay hinner => simp [Exit.isSuccess] at hexit
  | withoutCode hfault hpay hinner => exact absurd rfl hstored
  | failed hfault hpay hinner _ hclosing =>
    refine ⟨fun hrefused => absurd hrefused (creationFault_eq_none.mp hfault), ?_⟩
    intro _
    rw [close_world _ hinner.keeps, closedWorld, if_neg hclosing]
    simp only [raiseNonce, Executor.onWorld, pay_world hpay]

/-- Frames run with a number of steps that may depend on the executor. The frames nested in a run
get as many as are left of it, and the frame of a transaction gets `Executor.stepAllowance`. -/
def runs (allowance : Executor → Nat) : Runner :=
  fun context m ex => run (allowance ex) context m ex

lemma runs_evolving (allowance : Executor → Nat) : EvolvingRunner (runs allowance) :=
  fun h => run_evolves _ h

/-- A failed call leaves the world as it was. A failed creation leaves it as it was if it was
refused, and otherwise as it was but for the nonce of its creator, which is one more. -/
theorem failed_frames_leave_no_trace {ex : Executor} (hex : Reachable ex)
    (allowance : Executor → Nat) :
    (∀ codeAddress t input targetGas withStipend context outcome ex',
      ex.call (runs allowance) codeAddress t input targetGas withStipend context =
        some (outcome, ex') →
      outcome.exit.isSuccess = false → ex'.world = ex.world) ∧
    (∀ caller value initCode targetGas outcome ex',
      ex.create (runs allowance) caller value initCode targetGas = some (outcome, ex') →
      outcome.exit.isSuccess = false → outcome.exit ≠ .fault .codeStoreOutOfGas →
      (CreationRefused ex caller value → ex'.world = ex.world) ∧
        (¬CreationRefused ex caller value →
          ex'.world = ex.world.setNonce caller (ex.world.nonce caller + 1) ∧
          (ex'.world.nonce caller).toNat = (ex.world.nonce caller).toNat + 1)) := by
  constructor
  · intro codeAddress t input targetGas withStipend context outcome ex' h hexit
    exact (call_bracket (runs_evolving allowance) h).world_of_failed hexit
  · intro caller value initCode targetGas outcome ex' h hexit hstored
    obtain ⟨hrefused, haccepted⟩ := (creation_bracket (runs_evolving allowance) h).world_of_failed
      hex.workingMeters.1 (Nat.min_le_left _ _) hexit hstored
    refine ⟨hrefused, ?_⟩
    intro hnot
    have hworld := haccepted hnot
    have hnonce : ex.world.nonce caller ≠ 0xffffffffffffffff := fun hmax => hnot (.inr (.inr hmax))
    refine ⟨hworld, ?_⟩
    rw [hworld]
    exact raised_nonce hnonce

/-- Writes to a slot, and then fails. -/
def spoilingCode : Bytes := #[0x60, 1, 0x60, 0, 0x55, 0xfe]

/-- An account with this code beside one that has funds, which starts a transaction. -/
def spoilingExecutor : Executor :=
  let accounts : Std.ExtTreeMap Address Account :=
    (Std.ExtTreeMap.empty.insert 0xa ⟨0, 5, ∅, #[]⟩).insert 0xb ⟨0, 0, ∅, spoilingCode⟩
  (Executor.new (World.ofAccounts accounts) .frontier .zero).reset 0xa 90000

theorem failed_frames_leave_no_trace_spoilingExecutor :
    (∃ outcome ex', spoilingExecutor.call (runs fun _ => 9) 0xb (some ⟨0xa, 0xb, 3⟩) #[]
        (some 40000) false ⟨0xb, 0xa, 3⟩ = some (outcome, ex') ∧
      outcome.exit = .fault (.invalidCode ⟨0xfe⟩) ∧ ex'.world = spoilingExecutor.world) ∧
    ∃ outcome ex', spoilingExecutor.create (runs fun _ => 9) 0xa 3 spoilingCode (some 40000) =
        some (outcome, ex') ∧
      outcome.exit = .fault (.invalidCode ⟨0xfe⟩) ∧
      ex'.world = spoilingExecutor.world.setNonce 0xa 1 ∧
      (ex'.world.nonce 0xa).toNat = 1 := by
  have hreachable : Reachable spoilingExecutor := .reset (.new _ _ _) _ _
  obtain ⟨hcalls, hcreations⟩ := failed_frames_leave_no_trace hreachable fun _ => 9
  constructor
  · have hexit : (spoilingExecutor.call (runs fun _ => 9) 0xb (some ⟨0xa, 0xb, 3⟩) #[]
        (some 40000) false ⟨0xb, 0xa, 3⟩).map (fun r => r.1.exit) =
          some (.fault (.invalidCode ⟨0xfe⟩)) := by decide +kernel
    obtain ⟨⟨outcome, ex'⟩, hcall, hfault⟩ := Option.map_eq_some_iff.mp hexit
    simp only at hfault
    have hworld := hcalls _ _ _ _ _ _ _ _ hcall (by simp [hfault, Exit.isSuccess])
    exact ⟨outcome, ex', hcall, hfault, hworld⟩
  · have hexit : (spoilingExecutor.create (runs fun _ => 9) 0xa 3 spoilingCode
        (some 40000)).map (fun r => r.1.exit) = some (.fault (.invalidCode ⟨0xfe⟩)) := by
      decide +kernel
    obtain ⟨⟨outcome, ex'⟩, hcreate, hfault⟩ := Option.map_eq_some_iff.mp hexit
    simp only at hfault
    have haccepted : spoilingExecutor.creationFault 0xa 3 = none := by decide +kernel
    have hnonce : spoilingExecutor.world.nonce 0xa = 0 := by decide +kernel
    obtain ⟨hworld, hraised⟩ := (hcreations _ _ _ _ _ _ hcreate (by simp [hfault, Exit.isSuccess])
      (by simp [hfault])).2 (creationFault_eq_none.mp haccepted)
    rw [hnonce] at hworld hraised
    exact ⟨outcome, ex', hcreate, hfault, hworld, hraised⟩

end ContractMachine.Proofs
