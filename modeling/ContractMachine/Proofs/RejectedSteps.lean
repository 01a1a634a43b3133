import ContractMachine.Proofs.FrameTree
import ContractMachine.Proofs.MemoryNeeds

/-!
# Steps that are rejected

A step looks an instruction over and charges for it before it performs it. Where one of the checks
or the charge fails, nothing has changed. Memory that is past its limit is found out only once it is
paid for, and then the meter has changed and nothing else. Whatever instruction set describes the
opcodes, what it has them do is done only when it is paid in full. None of this depends on what the
operations of the set do, or on how they tell what memory they need.
-/

namespace ContractMachine.Proofs

variable {β φ : Type} {c : Configuration β φ} {task : Task β φ} {op : Opcode}
  {o : Operation β φ} {stack : Stack} {ex paid : Executor β φ} {e : Entry} {f : Fault}

/-- The full charge for a task: a fixed price where it has one and needs no memory, and otherwise
the price of the instruction with its operands, together with that of the memory. -/
inductive FullCharge (c : Configuration β φ) (task : Task β φ) : Entry → Prop
  | fixed {cost : Nat} (hcost : task.op.staticCost? = some cost) (hmemory : task.memoryEnd = none) :
    FullCharge c task (.cost cost)
  | priced {price : Price} (hvaries : task.op.staticCost? = none ∨ task.memoryEnd ≠ none)
      (hprice : c.executor.price task.op c.context.address c.machine.stack = .ok price) :
    FullCharge c task (.priced price task.memoryEnd)

/-- The executor, with the full charge for the task booked in the meter of its frame. -/
inductive PaidInFull (c : Configuration β φ) (task : Task β φ) : Executor β φ → Prop
  | intro {e : Entry} {l l' : Ledger} (trace : Trace) (hfull : FullCharge c task e)
      (hledger : c.executor.frame.meter.ledger = some l)
      (hbooked : Booked c.executor.rules c.executor.frame.meter l e l') :
    PaidInFull c task
      { c.executor with
        frame := { c.executor.frame with meter := ⟨c.executor.frame.meter.limit, some l'⟩ }
        trace := trace }

lemma record_eq_error {left : Executor β φ} (h : Executor.record e ex = (.error f, left)) :
    ∃ trace, left = { ex with trace := trace } := by
  cases hrecord : ex.frame.meter.record ex.rules e with
  | mk result meter =>
    rw [record_eq, hrecord, Prod.mk.injEq] at h
    obtain ⟨rfl, rfl⟩ := h
    rw [record_refused hrecord]
    exact ⟨_, rfl⟩

/-- A charge that is refused is announced at most. -/
lemma charge_eq_error {address : Address} {memoryEnd : Option Nat} {left : Executor β φ}
    (h : Executor.charge op address stack memoryEnd ex = (.error f, left)) :
    ∃ trace, left = { ex with trace := trace } := by
  obtain ⟨g, hcharge⟩ | ⟨e, hcharge, -⟩ := charge_cases op address stack memoryEnd ex
  · rw [hcharge] at h
    cases h
    exact ⟨ex.trace, rfl⟩
  · rw [hcharge] at h
    exact record_eq_error h

lemma FullCharge.paidInFull (hfull : FullCharge c task e)
    (h : Executor.record e c.executor = (.ok (), paid)) : PaidInFull c task paid := by
  cases hrecord : c.executor.frame.meter.record c.executor.rules e with
  | mk result meter =>
    rw [record_eq, hrecord, Prod.mk.injEq] at h
    obtain ⟨rfl, rfl⟩ := h
    obtain ⟨l, hledger, l', rfl, hbooked⟩ := record_booked hrecord
    exact .intro _ hfull hledger hbooked

lemma paidInFull_of_charge
    (h : Executor.charge task.op c.context.address c.machine.stack task.memoryEnd c.executor =
      (.ok (), paid)) : PaidInFull c task paid := by
  unfold Executor.charge at h
  split at h
  · next cost hcost hmemory => exact (FullCharge.fixed hcost hmemory).paidInFull h
  · next hvaries =>
    cases hprice : c.executor.price task.op c.context.address c.machine.stack with
    | error f =>
      rw [hprice] at h
      cases h
    | ok price =>
      rw [hprice] at h
      refine (FullCharge.priced ?_ hprice).paidInFull h
      cases hcost : task.op.staticCost? with
      | none => exact .inl rfl
      | some cost => exact .inr fun hmemory => hvaries cost hcost hmemory

variable [Behaviour β φ]

/-- The step ends the frame before anything is done: there is no opcode, one of the checks says so,
or the charge is refused. -/
inductive Rejects (c : Configuration β φ) : Exit → Prop
  | exhausted (hop : c.machine.opcode? = none) : Rejects c (.succeed .stopped)
  | vetted {op : Opcode} {f : Fault} (hop : c.machine.opcode? = some op)
      (hvetting : Vetting c.executor op (c.executor.instructions.get op) c.machine.stack
        (.error f)) :
    Rejects c (.fault f)
  | unpaid {task : Task β φ} {f : Fault} {left : Executor β φ}
      (hvetted : c.executor.admit c.machine = .ok task)
      (hcharge : Executor.charge task.op c.context.address c.machine.stack task.memoryEnd
        c.executor = (.error f, left)) :
    Rejects c (.fault f)

/-- The task is charged for, but the memory that it needs is past the limit of the memory. -/
structure Outgrows (c : Configuration β φ) (task : Task β φ) (paid : Executor β φ) : Prop where
  vetted : c.executor.admit c.machine = .ok task
  charged : Executor.charge task.op c.context.address c.machine.stack task.memoryEnd c.executor =
    (.ok (), paid)
  pastLimit : ∃ stop, task.memoryEnd = some stop ∧ c.machine.memory.size < stop ∧
    c.machine.memory.limit < stop

lemma Vetting.vet {result : Except Fault (Option Nat)} (h : Vetting ex op o stack result) :
    ex.vet op o stack = result := by
  unfold Executor.vet
  cases h with
  | undefined hvalid =>
    rw [hvalid]
    rfl
  | unfit hvalid hcheck =>
    rw [hvalid, hcheck]
    rfl
  | unreadable hvalid hcheck hrefuses | readOnly hvalid hcheck hrefuses =>
    rw [hvalid, hcheck, hrefuses]
    rfl
  | measured hvalid hcheck hrefuses =>
    rw [hvalid, hcheck, hrefuses]
    rfl

lemma Rejects.step {exit : Exit} (h : Rejects c exit) (runner : Runner β φ) :
    ∃ trace, step runner c.context c.machine c.executor =
      some (.exit exit c.machine { c.executor with trace := trace }) := by
  cases h with
  | exhausted hop =>
    refine ⟨c.executor.trace, ?_⟩
    simp only [ContractMachine.step, Executor.admit, hop]
  | vetted hop hvetting =>
    refine ⟨c.executor.trace, ?_⟩
    simp only [ContractMachine.step, Executor.admit, hop, hvetting.vet]
  | unpaid hvetted hcharge =>
    obtain ⟨trace, rfl⟩ := charge_eq_error hcharge
    exact ⟨trace, by simp only [ContractMachine.step, hvetted, hcharge]⟩

lemma Outgrows.refused (h : Outgrows c task paid) :
    Machine.grow task.memoryEnd c.machine = (.error .outOfGas, c.machine) := by
  obtain ⟨stop, hneeded, hsize, hlimit⟩ := h.pastLimit
  obtain ⟨-, -, hneed⟩ := vet_ok (task_of_admitted h.vetted).2
  obtain ⟨-, -, -, -, hrefused⟩ | ⟨hwithin, -⟩ := grow_cases hneed c.machine
  · exact hrefused
  · obtain hle | hle := hwithin stop hneeded
    · exact absurd hsize (Nat.not_lt_of_le hle)
    · exact absurd hlimit (Nat.not_lt_of_le hle)

lemma Outgrows.step (h : Outgrows c task paid) (runner : Runner β φ) :
    step runner c.context c.machine c.executor =
      some (.exit (.fault .outOfGas) c.machine paid) := by
  simp only [ContractMachine.step, h.vetted, h.charged, h.refused]

lemma Performs.paidInFull {grown : Machine} {ready : Executor β φ}
    (h : Performs c task grown ready) :
    ∃ paid, PaidInFull c task paid ∧ ∀ runner,
      step runner c.context c.machine c.executor = task.dispatch runner c.context grown paid := by
  cases h with
  | intro hvetted hcharge hgrow =>
    refine ⟨_, paidInFull_of_charge hcharge, ?_⟩
    intro runner
    simp only [ContractMachine.step, hvetted, hcharge, hgrow]

lemma step_outcomes (c : Configuration β φ) :
    (∃ exit, Rejects c exit) ∨ (∃ task paid, Outgrows c task paid) ∨
      ∃ task grown ready, Performs c task grown ready := by
  cases hvetted : c.executor.admit c.machine with
  | error exit =>
    refine .inl ⟨exit, ?_⟩
    unfold Executor.admit at hvetted
    cases hop : c.machine.opcode? with
    | none =>
      simp only [hop] at hvetted
      cases hvetted
      exact .exhausted hop
    | some op =>
      have hvetting := vet_vetting c.executor op (c.executor.instructions.get op) c.machine.stack
      cases hvet : c.executor.vet op (c.executor.instructions.get op) c.machine.stack with
      | ok memoryEnd => simp [hop, hvet] at hvetted
      | error f =>
        simp only [hop, hvet] at hvetted
        cases hvetted
        rw [hvet] at hvetting
        exact .vetted hop hvetting
  | ok task =>
    cases hcharge : Executor.charge task.op c.context.address c.machine.stack task.memoryEnd
        c.executor with
    | mk result paid =>
      cases result with
      | error f => exact .inl ⟨_, .unpaid hvetted hcharge⟩
      | ok u =>
        obtain ⟨-, -, hneed⟩ := vet_ok (task_of_admitted hvetted).2
        obtain ⟨stop, hneeded, hsize, hlimit, -⟩ | ⟨-, grown, hgrow⟩ := grow_cases hneed c.machine
        · exact .inr (.inl ⟨task, paid, hvetted, hcharge, stop, hneeded, hsize, hlimit⟩)
        · exact .inr (.inr ⟨task, grown, _, .intro hvetted hcharge hgrow⟩)

lemma Performs.not_rejects {grown : Machine} {ready : Executor β φ}
    (h : Performs c task grown ready) (exit : Exit) : ¬Rejects c exit := by
  intro hrejects
  cases h with
  | intro hvetted hcharge hgrow =>
    obtain ⟨hop, hvet⟩ := task_of_admitted hvetted
    cases hrejects with
    | exhausted hnone =>
      rw [hop] at hnone
      cases hnone
    | vetted hsame hvetting =>
      simp only [hsame, Executor.admit, hvetting.vet] at hvetted
      cases hvetted
    | unpaid hsame hrefused =>
      rw [hvetted, Except.ok.injEq] at hsame
      subst hsame
      rw [hcharge] at hrefused
      cases hrefused

lemma Performs.not_outgrows {grown : Machine} {ready : Executor β φ}
    (h : Performs c task grown ready) (other : Task β φ) (paid : Executor β φ) :
    ¬Outgrows c other paid := by
  intro houtgrows
  have hsame := houtgrows.vetted
  have hrefused := houtgrows.refused
  cases h with
  | intro hvetted hcharge hgrow =>
    rw [hvetted, Except.ok.injEq] at hsame
    subst hsame
    rw [hgrow] at hrefused
    cases hrefused

/-- A read-only frame that comes to an addition, which an overlay declares to be a write. -/
def guardedConfiguration : Configuration where
  context := ⟨0xa, 0xc, 0⟩
  machine := .start #[0x01] #[] 1024 4096
  executor :=
    { (Executor.new (.ofAccounts ∅) .homestead .zero).enter 1000 true with
      instructions := .overlay .homestead [(⟨0x01⟩, (Operation.plain .stop 0 0).writing)] }

/-- A frame about to store its second word, with memory for one. -/
def cappedConfiguration : Configuration where
  context := ⟨0xa, 0xc, 0⟩
  machine := { Machine.start #[0x52] #[] 1024 32 with stack := ⟨[32, 7], 1024⟩ }
  executor := (Executor.new (.ofAccounts ∅) .homestead .zero).enter 1000 false

/-- An operation that ends its frame for a reason of its own. -/
structure Refusal where
  reason : String

instance : Behaviour Refusal Refusal where
  act _ refusal _ m ex := some (.fault (.other refusal.reason), m, ex)
  stop _ refusal := .error (.other refusal.reason)

/-- An instruction set that refuses to say what memory its operations need. -/
def refusingSet : InstructionSet Refusal Refusal :=
  .ofFn fun _ => (Operation.plain ⟨"undone"⟩ 0 0).touching ⟨"unmeasured"⟩

def refusingConfiguration : Configuration Refusal Refusal where
  context := ⟨0xa, 0xc, 0⟩
  machine := .start #[0x01] #[] 1024 4096
  executor :=
    ((Executor.new (.ofAccounts ∅) .homestead .zero).withInstructions refusingSet).enter 1000 false

end ContractMachine.Proofs
