import ContractMachine.Proofs.LogsAndMarks
import ContractMachine.Proofs.MemoryAccesses
import ContractMachine.Proofs.SucceedingOrders

/-!
# What a call does to the frame that makes it

Whatever happens below a call, all that its frame sees of it is one item on the stack and, if the
call succeeds, the output in the window that was set aside for it. The window may be larger or
smaller than the output, and may overlap the input; nothing else of the memory changes once it has
grown.
-/

namespace ContractMachine.Proofs

/-- What a frame orders by a call. The input is read from the memory as it is before the step. -/
def CallOperands.order (o : CallOperands) (scheme : CallScheme) (c : Configuration) :
    CallOrder where
  codeAddress := o.target.toAddress
  transfer := c.context.transferFor scheme o.target.toAddress o.value
  input := c.machine.memory.read o.input.offset.toNat o.input.length.toNat
  targetGas := o.gas.toQuantity?
  withStipend := true
  context := c.context.forCall scheme o.target.toAddress o.value

/-- The memory has the start of the output in the window, as far as both reach, and is the same
everywhere else. -/
structure Receives (w : Window) (output : Bytes) (before after : Memory) : Prop where
  size : after.size = before.size
  inside : ∀ k < min w.length.toNat output.size,
    after.data[w.offset.toNat + k]? = output[k]?
  outside : ∀ k, k < w.offset.toNat ∨ w.offset.toNat + min w.length.toNat output.size ≤ k →
    after.data[k]? = before.data[k]?

/-- The machine after a call: it has moved on to the next instruction, and has another item on top
of what was below the operands and perhaps another memory. -/
structure Resumes (c : Configuration) (item : Word) (rest : List Word) (memory : Memory)
    (next : Machine) : Prop where
  stack : next.stack = ⟨item :: rest, c.machine.stack.limit⟩
  memory : next.memory = memory
  position : next.position = Quantity.saturatingAdd c.machine.position 1
  code : next.code = c.machine.code
  jumps : next.jumps = c.machine.jumps
  input : next.input = c.machine.input
  returned : next.returnStart = c.machine.returnStart ∧ next.returnStop = c.machine.returnStop

/-- Growing adds zeros to the memory and changes nothing else. -/
lemma grow_zeros {memoryEnd : Option Nat} {m grown : Machine}
    (h : Machine.grow memoryEnd m = (.ok (), grown)) :
    ∃ count, grown = withMemory ⟨m.memory.data ++ Array.replicate count 0, m.memory.limit⟩ m := by
  cases memoryEnd with
  | none =>
    cases h
    refine ⟨0, ?_⟩
    rw [Array.replicate_zero, Array.append_empty]
    rfl
  | some stop =>
    obtain ⟨code, input, position, first, last, jumps, ⟨data, limit⟩, stack⟩ := m
    simp only [Machine.grow, Machine.onMemory, Memory.resize_eq] at h
    repeat' split at h
    all_goals cases h
    · refine ⟨0, ?_⟩
      rw [Array.replicate_zero, Array.append_empty]
      rfl
    · exact ⟨_, rfl⟩

lemma receives_written {w : Window} {m : Machine} (hcovered : w.Covered m.memory)
    (output : Bytes) :
    Receives w output m.memory (written w.offset.toNat (min w.length.toNat output.size) output.at0
      m).memory := by
  constructor
  · exact size_overwrite _ _ _ _
  · intro k hk
    have hlength : w.length ≠ 0 := by
      intro hempty
      rw [hempty] at hk
      exact absurd hk (by simp)
    have hend : w.offset.toNat + w.length.toNat ≤ m.memory.data.size :=
      hcovered.inside.resolve_left hlength
    have hbyte : k < output.size := by omega
    show (Memory.overwrite _ _ _ _)[_]? = _
    rw [getElem?_overwrite, if_pos (by omega), Nat.add_sub_cancel_left]
    simp only [Bytes.at0, Array.getD_eq_getD_getElem?, Array.getElem?_eq_getElem hbyte,
      Option.getD_some]
  · intro k hk
    show (Memory.overwrite _ _ _ _)[_]? = _
    rw [getElem?_overwrite, if_neg (by omega)]

variable {runner : Runner} {c : Configuration} {task : Task} {grown done next : Machine}
  {ready after : Executor} {control : Control} {scheme : CallScheme}

/-- The memory of a machine that performs a task has grown by zeros. -/
lemma Performs.zeros (h : Performs c task grown ready) :
    ∃ count, grown = withMemory
      ⟨c.machine.memory.data ++ Array.replicate count 0, c.machine.memory.limit⟩ c.machine := by
  cases h with
  | intro hvetted hcharge hgrow => exact grow_zeros hgrow

/-- What a call makes of the machine, however the call ended. -/
lemma perform_call_ends (items : List Word) {m : Machine} {context : Context}
    (hsupplied : Supplied (.call scheme) (withItems items m))
    (h : perform runner (.call scheme) context (withItems items m) ready =
      some (control, done, after)) :
    ∃ (o : CallOperands) (rest : List Word) (outcome : CallOutcome),
      items = o.stacked scheme ++ rest ∧ o.output.Covered m.memory ∧
      Machine.takeCall scheme (withItems items m) = (.ok (o.request m.memory), withItems rest m) ∧
      ready.call runner o.target.toAddress
        (context.transferFor scheme o.target.toAddress o.value)
        (m.memory.read o.input.offset.toNat o.input.length.toNat) o.gas.toQuantity? true
        (context.forCall scheme o.target.toAddress o.value) = some (outcome, after) ∧
      control = .proceed ∧
      done = written o.output.offset.toNat
        (returned (o.request m.memory) outcome.exit outcome.output) outcome.output.at0
        (withItems (Word.ofBool outcome.exit.isSuccess :: rest) m) := by
  obtain ⟨o, rest, rfl, hroom, -, -, hcovered, htake⟩ := hsupplied.call
  have htaken := htake m
  simp only [perform, takeThen, htaken] at h
  split at h
  · cases h
  · next outcome called hcall =>
    have hfinish := finishCall_eq (o.request m.memory) outcome.exit outcome.output hcovered hroom
    simp only [proceed, hfinish, Option.some.injEq, Prod.mk.injEq] at h
    obtain ⟨rfl, rfl, rfl⟩ := h
    exact ⟨o, rest, outcome, rfl, hcovered, htaken, hcall, rfl, rfl⟩

/-- The frame of a call has the input that was ordered for it. -/
lemma Starts.input {o : CallOrder} {child : Configuration} (h : Starts ready (.call o) child) :
    child.machine.input = o.input := by
  have hcode := h.code
  obtain ⟨-, entered, henters, hprepares⟩ := h.prepared
  have hprepared := openCall_prepared henters hprepares
  rw [hcode] at hprepared
  cases h with
  | call hopening =>
    rw [hopening] at hprepared
    obtain ⟨hmachine, -⟩ := Opening.ready.inj hprepared
    rw [hmachine]
    rfl

/-- A machine that performs a task differs from the one before only in its memory. -/
lemma Performs.resumes (h : Performs c task grown ready) (item : Word) (rest : List Word)
    (start count : Nat) (source : Nat → UInt8) :
    Resumes c item rest (written start count source grown).memory
      (Machine.advance 1 (written start count source (withItems (item :: rest) grown))) := by
  obtain ⟨zeros, rfl⟩ := h.zeros
  constructor
  all_goals first | rfl | exact ⟨rfl, rfl⟩

/-- A call that goes on leaves its frame at the next instruction. -/
lemma conclude_call (hop : task.op = callOpcode scheme)
    (hoperation : task.operation = .standard (.call scheme)) :
    task.conclude .proceed done = (none, done.advance 1) := by
  have hwidth : task.op.pushWidth = 0 := by
    rw [hop]
    cases scheme <;> decide
  rw [conclude_opensFrame hoperation rfl, hwidth]

/-- How a call that goes on was carried out, and what it leaves. -/
lemma step_call_ends (hs : IsStandard c.executor.instructions)
    (hop : c.machine.opcode? = some (callOpcode scheme))
    (h : step runner c.context c.machine c.executor = some (.next next after)) :
    ∃ (o : CallOperands) (rest : List Word) (task : Task) (grown : Machine)
      (ready called : Executor) (outcome : CallOutcome),
      c.machine.stack.items = o.stacked scheme ++ rest ∧ Performs c task grown ready ∧
      Orders c task (.call (o.order scheme c)) ready ∧ o.output.Covered grown.memory ∧
      ready.call runner o.target.toAddress
        (c.context.transferFor scheme o.target.toAddress o.value)
        (c.machine.memory.read o.input.offset.toNat o.input.length.toNat) o.gas.toQuantity? true
        (c.context.forCall scheme o.target.toAddress o.value) = some (outcome, called) ∧
      Resumes c (Word.ofBool outcome.exit.isSuccess) rest
        (written o.output.offset.toNat (returned (o.request grown.memory) outcome.exit
          outcome.output) outcome.output.at0 grown).memory next := by
  obtain ⟨⟨exit, m, ex, hexit⟩, -⟩ | ⟨task, grown, ready, -, -, -, -, hperforms, -, -⟩ :=
    step_performs h
  · cases hexit
  obtain ⟨control, done, called, event, hperform, -, hnext⟩ := hperforms.performed h
  obtain ⟨hvetted, hstack⟩ := hperforms.vetted
  have htask : task.op = callOpcode scheme := by
    have hsame := (task_of_admitted hvetted).1
    rw [hop, Option.some.injEq] at hsame
    exact hsame.symm
  obtain ⟨-, hinstruction, hoperation⟩ := task_of_standard hs hvetted
  have hcalls : task.operation.behaviour = .call scheme := by
    rw [htask] at hinstruction
    cases scheme <;> exact (Option.some.inj hinstruction).symm
  have hsupplied := hperforms.supplied hs
  rw [hcalls] at hoperation hperform hsupplied
  obtain ⟨o, rest, outcome, hitems, hcovered, htake, hcall, rfl, rfl⟩ :=
    perform_call_ends grown.stack.items hsupplied hperform
  -- The input is read from the memory that has grown, which reads as it did before.
  have hread := hperforms.memory o.input.offset.toNat o.input.length.toNat
  have horders := Orders.call hperforms hcalls htake
  simp only [CallOperands.request, hread] at horders
  rw [hread] at hcall
  rw [hstack] at hitems
  rw [conclude_call htask hoperation] at hnext
  refine ⟨o, rest, task, grown, ready, called, outcome, hitems, hperforms, horders, hcovered,
    hcall, ?_⟩
  rw [show next = _ from hnext]
  exact hperforms.resumes _ rest _ _ _

/-- A call that goes on has carried its order out. If that succeeds, the output is in its window and
one is on the stack. If it does not, or is not even possible, the memory has only grown and zero is
on the stack. Nothing else of the frame has changed but its position. -/
theorem call_changes_its_window {c : Configuration} (hs : IsStandard c.executor.instructions)
    {scheme : CallScheme} (hop : c.machine.opcode? = some (callOpcode scheme)) {fuel : Nat}
    {next : Machine} {after : Executor}
    (h : step (run fuel) c.context c.machine c.executor = some (.next next after)) :
    ∃ (o : CallOperands) (rest : List Word) (task : Task) (grown : Machine) (ready : Executor),
      c.machine.stack.items = o.stacked scheme ++ rest ∧
      (Performs c task grown ready ∧ Orders c task (.call (o.order scheme c)) ready) ∧
      (∃ count, grown.memory.data = c.machine.memory.data ++ Array.replicate count 0) ∧
      (∀ child, Starts ready (.call (o.order scheme c)) child → child.machine.input =
        c.machine.memory.read o.input.offset.toNat o.input.length.toNat) ∧
      ((∃ entered halt output last memory, Enters ready (.call (o.order scheme c)) entered ∧
          Succeeds (run fuel) ready (.call (o.order scheme c)) entered halt output last ∧
          Receives o.output output grown.memory memory ∧ Resumes c 1 rest memory next) ∨
        (∀ entered halt output last, Enters ready (.call (o.order scheme c)) entered →
          ¬Succeeds (run fuel) ready (.call (o.order scheme c)) entered halt output last) ∧
          Resumes c 0 rest grown.memory next) ∧
      run (fuel + 1) c.context c.machine c.executor = run fuel c.context next after := by
  obtain ⟨o, rest, task, grown, ready, called, outcome, hitems, hperforms, horders, hcovered,
    hcall, hresumes⟩ := step_call_ends hs hop h
  have hzeros : ∃ count,
      grown.memory.data = c.machine.memory.data ++ Array.replicate count 0 := by
    obtain ⟨count, rfl⟩ := hperforms.zeros
    exact ⟨count, rfl⟩
  refine ⟨o, rest, task, grown, ready, hitems, ⟨hperforms, horders⟩, hzeros,
    fun child hstarts => hstarts.input, ?_, by simp only [run, h]⟩
  have hends : ready.call (run fuel) (o.order scheme c).codeAddress (o.order scheme c).transfer
      (o.order scheme c).input (o.order scheme c).targetGas (o.order scheme c).withStipend
      (o.order scheme c).context = some (outcome, called) := hcall
  cases hsuccess : outcome.exit.isSuccess with
  | true =>
    left
    obtain ⟨entered, halt, output, last, henters, hsucceeds, rfl, -⟩ :=
      call_succeeds (run_evolves fuel) hends hsuccess
    exact ⟨entered, halt, output, last, _, henters, hsucceeds,
      receives_written hcovered output, hresumes⟩
  | false =>
    right
    rw [hsuccess] at hresumes
    simp only [returned, hsuccess, Bool.false_eq_true, if_false] at hresumes
    refine ⟨?_, hresumes⟩
    intro entered halt output last henters hsucceeds
    have hsucceeded := hsucceeds.call (run_evolves fuel) henters
    rw [hends, Option.some.injEq, Prod.mk.injEq] at hsucceeded
    rw [hsucceeded.1] at hsuccess
    cases hsuccess

/-- A frame about to call code that returns two bytes. Input and output share a byte of a memory of
one word, and both go past its end. -/
def overlappingConfiguration : Configuration :=
  let accounts : Std.ExtTreeMap Address Account := Std.ExtTreeMap.empty.insert 0xb
    ⟨0, 0, ∅, #[0x60, 0xff, 0x60, 0, 0x53, 0x60, 2, 0x60, 0, 0xf3]⟩
  { context := ⟨0xa, 0xc, 0⟩
    machine := { Machine.start #[0xf1] #[] 1024 4096 with
      memory := ⟨Array.replicate 32 7, 4096⟩
      stack := ⟨[5000, 0xb, 0, 29, 4, 31, 8], 1024⟩ }
    executor := (Executor.new (.ofAccounts accounts) .frontier .zero).reset 0xc 90000 }

/-- The step goes on with one as the only item, and the two bytes are in the window. -/
def receivesTwoBytes : Progress → Bool
  | .next m _ => m.stack.items == [1] && m.memory.read 30 4 == #[7, 0xff, 0, 0]
  | .exit _ _ _ => false

theorem call_changes_its_window_overlappingConfiguration :
    ∃ (o : CallOperands) (rest : List Word) (memory : Memory) (output : Bytes) (next : Machine)
      (after : Executor),
      step (run 9) overlappingConfiguration.context overlappingConfiguration.machine
        overlappingConfiguration.executor = some (.next next after) ∧
      overlappingConfiguration.machine.stack.items = o.stacked .call ++ rest ∧
      (∃ count, memory.data =
        overlappingConfiguration.machine.memory.data ++ Array.replicate count 0) ∧
      Receives o.output output memory next.memory ∧ next.stack.items = 1 :: rest ∧
      next.memory.read 30 4 = #[7, 0xff, 0, 0] := by
  have hsteps : (step (run 9) overlappingConfiguration.context overlappingConfiguration.machine
      overlappingConfiguration.executor).map receivesTwoBytes = some true := by decide +kernel
  obtain ⟨p, hstep, hp⟩ := Option.map_eq_some_iff.mp hsteps
  cases p with
  | exit exit m ex => cases hp
  | next next after =>
    simp only [receivesTwoBytes, Bool.and_eq_true, beq_iff_eq] at hp
    obtain ⟨hone, hbytes⟩ := hp
    have hframe : overlappingConfiguration.executor.instructions = .frontier := rfl
    have hop : overlappingConfiguration.machine.opcode? = some (callOpcode .call) := by
      decide +kernel
    obtain ⟨o, rest, task, grown, ready, hitems, -, hzeros, -, hends, -⟩ :=
      call_changes_its_window (.inl hframe) hop hstep
    obtain ⟨-, -, output, -, memory, -, -, hreceives, hresumes⟩ | ⟨-, hresumes⟩ := hends
    · refine ⟨o, rest, grown.memory, output, next, after, hstep, hitems, hzeros, ?_, ?_, hbytes⟩
      · rw [hresumes.memory]
        exact hreceives
      · rw [hresumes.stack]
    · rw [hresumes.stack] at hone
      cases hone

end ContractMachine.Proofs
