import ContractMachine.Proofs.PaddedCode
import ContractMachine.Proofs.PaidMemory
import ContractMachine.Proofs.StackEffects

/-!
# Code runs as if zeros followed it

A frame of a standard set does not tell its code from the same code with zeros after it: past the
end it stops for nothing, and so it does at a zero. The two frames take the same steps until then,
unless the frame reads the size of its code.
-/

namespace ContractMachine.Proofs

variable {count : Nat}

def Executes (c : Configuration) (i : Instruction) : Prop :=
  ∃ task grown ready, Performs c task grown ready ∧ task.operation.behaviour = i

def paddedProgress (count : Nat) : Progress → Progress
  | .next m ex => .next (padded count m) ex
  | .exit exit m ex => .exit exit (padded count m) ex

lemma admit_padded {m : Machine} {op : Opcode} (hop : m.opcode? = some op) (ex : Executor) :
    ex.admit (padded count m) = ex.admit m := by
  simp only [padded_opcode hop, Executor.admit, hop]
  rfl

lemma ignores_grow (memoryEnd : Option Nat) : IgnoresPadding count (Machine.grow memoryEnd) := by
  cases memoryEnd with
  | none => exact ignores_pure ()
  | some stop => exact ignores_onMemory (Memory.resize stop)

lemma conclude_padded (task : Task) (control : Control) (m : Machine) :
    task.conclude control (padded count m) =
      ((task.conclude control m).1, padded count (task.conclude control m).2) := by
  unfold Task.conclude
  cases control with
  | proceed =>
    by_cases hhalts : task.operation.halts = true
    · simp only [hhalts, if_true]
    · by_cases hjumps : task.operation.jumps = true
      · simp only [hhalts, hjumps, if_true, if_false, Bool.false_eq_true]
      · simp only [hhalts, hjumps, if_false, Bool.false_eq_true]
        rfl
  | halt halt => rfl
  | exit exit => rfl

lemma dispatch_padded {task : Task} (hsize : task.operation.behaviour ≠ .reading .codeSize)
    (hvalid : task.operation.behaviour ≠ .invalid) (runner : Runner) (context : Context)
    (m : Machine) (ex : Executor) :
    task.dispatch runner context (padded count m) ex =
      (task.dispatch runner context m ex).map (paddedProgress count) := by
  simp only [Task.dispatch, act_instruction]
  rw [show (padded count m).position = m.position from rfl,
    show (padded count m).stack = m.stack from rfl,
    show (padded count m).memory = m.memory from rfl, perform_padded hsize hvalid]
  cases perform runner task.operation.behaviour context m
      (ex.emit .runtime (.step context.address task.op m.position m.stack m.memory)) with
  | none => rfl
  | some result =>
    obtain ⟨control, done, after⟩ := result
    simp only [Option.map_some, paddedControl, conclude_padded]
    cases task.conclude control done with
    | mk exit last => cases exit <;> rfl

lemma valid_of_standard {i : Instruction} (h : (Operation.standard i).valid = true) :
    i ≠ .invalid := by
  rintro rfl
  cases h

/-- Where there is an opcode, a step does the same with zeros after the code. -/
theorem step_padded {c : Configuration} {op : Opcode} (hs : IsStandard c.executor.instructions)
    (hop : c.machine.opcode? = some op) (hsize : ¬Executes c (.reading .codeSize))
    (runner : Runner) :
    step runner c.context (padded count c.machine) c.executor =
      (step runner c.context c.machine c.executor).map (paddedProgress count) := by
  unfold step
  rw [admit_padded hop]
  cases hvetted : c.executor.admit c.machine with
  | error exit => rfl
  | ok task =>
    obtain ⟨hvalid, -, hstandard⟩ := task_of_standard hs hvetted
    rw [hstandard] at hvalid
    simp only
    rw [show (padded count c.machine).stack = c.machine.stack from rfl]
    cases hcharge : Executor.charge task.op c.context.address c.machine.stack task.memoryEnd
        c.executor with
    | mk result paid =>
      cases result with
      | error f => rfl
      | ok u =>
        simp only
        rw [ignores_grow task.memoryEnd c.machine]
        cases hgrow : Machine.grow task.memoryEnd c.machine with
        | mk result grown =>
          cases result with
          | error f => rfl
          | ok u =>
            refine dispatch_padded ?_ (valid_of_standard hvalid) runner c.context grown paid
            intro hcodeSize
            exact hsize ⟨task, grown, _, .intro hvetted hcharge hgrow, hcodeSize⟩

/-- A frame that runs past its code stops there, and pays nothing for it. -/
lemma step_pastEnd {m : Machine} (hop : m.opcode? = none) (runner : Runner) (context : Context)
    (ex : Executor) : step runner context m ex = some (.exit (.succeed .stopped) m ex) := by
  simp only [step, Executor.admit, hop]

/-- What holds of a frame of a standard set at each of its steps. -/
structure Running (m : Machine) (ex : Executor) : Prop where
  standard : IsStandard ex.instructions
  meter : ex.frame.meter.hasFailed = false
  stack : m.stack.height ≤ m.stack.limit

lemma get_stop {s : InstructionSet} (hs : IsStandard s) : s.get ⟨0⟩ = .standard .stop := by
  obtain rfl | rfl := hs <;> decide +kernel

lemma check_nothing {s : Stack} (h : s.height ≤ s.limit) : s.check 0 0 = .ok () := by
  rw [Stack.check, if_neg (Nat.not_lt_zero _),
    Stack.heightAfter_of_le (Nat.zero_le _) (Nat.zero_le _), Nat.sub_zero, Nat.add_zero,
    if_neg (Nat.not_lt_of_le h)]

lemma admit_stop {m : Machine} {ex : Executor} (h : Running m ex) (hop : m.opcode? = some ⟨0⟩) :
    ex.admit m = .ok ⟨⟨0⟩, .standard .stop, none⟩ := by
  have hcheck : (Operation.standard .stop).checkStack m.stack = .ok () := check_nothing h.stack
  have hrefuses : ex.refusesWrite ⟨0⟩ (.standard .stop) m.stack = .ok false := by
    unfold Executor.refusesWrite
    split <;> rfl
  have hvet : ex.vet ⟨0⟩ (.standard .stop) m.stack = .ok none := by
    simp only [Executor.vet, hcheck, hrefuses]
    rfl
  simp only [hop, Executor.admit, get_stop h.standard, hvet]

lemma take_nothing {m : Meter} (h : m.hasFailed = false) : Meter.take 0 m = (.ok (), m) := by
  obtain ⟨limit, ledger⟩ := m
  cases ledger with
  | none => cases h
  | some l => simp [Meter.take]

/-- A frame that comes to a zero stops there as well, for a price of nothing. -/
lemma step_stop {m : Machine} {ex : Executor} (h : Running m ex) (hop : m.opcode? = some ⟨0⟩)
    (runner : Runner) (context : Context) :
    ∃ trace, step runner context m ex =
      some (.exit (.succeed .stopped) m { ex with trace := trace }) := by
  have hcharge : Executor.charge ⟨0⟩ context.address m.stack none ex =
      (.ok (), { ex with trace := ex.trace.announce ex.rules ex.frame.meter (.cost 0) }) := by
    have hrecord : ex.frame.meter.record ex.rules (.cost 0) = (.ok (), ex.frame.meter) :=
      take_nothing h.meter
    show Executor.record (.cost 0) ex = _
    rw [record_eq, hrecord]
  simp only [step, admit_stop h hop, hcharge]
  generalize ex.trace.announce ex.rules ex.frame.meter (.cost 0) = announced
  show ∃ trace, some (Progress.exit (.succeed .stopped) m
    ((Executor.emit { ex with trace := announced } _ _).emit _ _)) = _
  obtain ⟨before, hbefore⟩ := emit_eq { ex with trace := announced } .runtime
    (.step context.address ⟨0⟩ m.position m.stack m.memory)
  rw [hbefore]
  obtain ⟨after, hafter⟩ := emit_eq { ex with trace := before } .runtime
    (.stepResult (some (.succeed .stopped)) m.returnValue)
  exact ⟨after, congrArg (fun last => some (Progress.exit (.succeed .stopped) m last)) hafter⟩

theorem Running.start {ex : Executor} (hex : Reachable ex) (hs : IsStandard ex.instructions)
    (code input : Bytes) (stackLimit memoryLimit : Nat) :
    Running (.start code input stackLimit memoryLimit) ex where
  standard := hs
  meter := hex.workingMeters.1
  stack := Nat.zero_le stackLimit

theorem Running.next {c c' : Configuration} (h : Running c.machine c.executor)
    (hnext : Continues c c') : Running c'.machine c'.executor := by
  cases hnext with
  | @intro fuel m ex hstep =>
    have hkeeps : Keeps c.executor ex := (step_evolves (run_evolves fuel) hstep).keeps
    refine ⟨?_, hkeeps.hasFailed.trans h.meter, ?_⟩
    · rw [hkeeps.instructions]
      exact h.standard
    · cases step_stepped hstep with
      | @goesOn task mid after grown done _ _ _ _ hvetted hcharge hgrow hperform hconclude =>
        have hperforms := Performs.intro hvetted hcharge hgrow
        have hroom := (hperforms.supplied h.standard).room
        rw [← (task_of_standard h.standard hvetted).2.2] at hroom
        have hdeclared := hperforms.declared h.standard hperform
        obtain ⟨rfl, rfl⟩ := conclude_next hconclude
        cases hdeclared with
        | goesOn hhalts hstack =>
          have hfits : done.stack.height ≤ done.stack.limit := by
            rw [hstack.height, hstack.limit]
            exact hroom
          split <;> exact hfits

/-- What a frame leaves of a run, but for its machine and for the events that it announced: its
exit, its return data, and the executor with the world, the logs and the meter. -/
def ending : Exit × Machine × Executor → Exit × Bytes × Executor
  | (exit, m, ex) => (exit, m.returnValue, { ex with trace := .silent })

lemma run_padded {context : Context} {m : Machine} {ex : Executor} (hrunning : Running m ex)
    (hsize : ∀ later, SameFrame ⟨context, m, ex⟩ later → ¬Executes later (.reading .codeSize))
    (count fuel : Nat) :
    (run fuel context (padded count m) ex).map ending = (run fuel context m ex).map ending := by
  induction fuel generalizing m ex with
  | zero => rfl
  | succ fuel ih =>
    simp only [run]
    cases hop : m.opcode? with
    | some op =>
      rw [step_padded (c := ⟨context, m, ex⟩) hrunning.standard hop (hsize _ .refl)]
      simp only
      cases hstep : step (run fuel) context m ex with
      | none => rfl
      | some p =>
        cases p with
        | exit exit last after => rfl
        | next next after =>
          have hnext : Continues ⟨context, m, ex⟩ ⟨context, next, after⟩ := .intro hstep
          exact ih (hrunning.next hnext) fun later hlater => hsize later (.head hnext hlater)
    | none =>
      -- The one frame stops past the end of its code, the other at a zero or past the zeros.
      rw [step_pastEnd hop]
      obtain hpast | hzero := padded_opcode_none count hop
      · rw [step_pastEnd hpast]
        rfl
      · have hstops : Running (padded count m) ex := ⟨hrunning.1, hrunning.2, hrunning.3⟩
        obtain ⟨trace, hpadded⟩ := step_stop hstops hzero (run fuel) context
        rw [hpadded]
        rfl

/-- Whatever zeros follow its code, a frame of a standard set that never reads the size of its code
comes to the same exit, the same return data and the same executor, in as many steps. Pushes that
the code cuts short, jumps past its end, copies from there and the end itself do not tell them. -/
theorem trailing_zeros_change_nothing {ex : Executor} (hex : Reachable ex)
    (hs : IsStandard ex.instructions) (context : Context) (code input : Bytes)
    (stackLimit memoryLimit : Nat)
    (hsize : ∀ later, SameFrame ⟨context, .start code input stackLimit memoryLimit, ex⟩ later →
      ¬Executes later (.reading .codeSize)) (count fuel : Nat) :
    (run fuel context (.start (code ++ Array.replicate count 0) input stackLimit memoryLimit)
        ex).map ending =
      (run fuel context (.start code input stackLimit memoryLimit) ex).map ending := by
  rw [← padded_start]
  exact run_padded (.start hex hs code input stackLimit memoryLimit) hsize count fuel

lemma Running.later {c later : Configuration} (h : Running c.machine c.executor)
    (hlater : SameFrame c later) : Running later.machine later.executor := by
  induction hlater with
  | refl => exact h
  | tail _ hnext ih => exact ih.next hnext

lemma Continues.code {c c' : Configuration} (h : Continues c c') :
    c'.machine.code = c.machine.code := by
  cases h with
  | intro hstep =>
    cases step_stepped hstep with
    | goesOn hvetted hcharge hgrow hperform hconclude =>
      obtain ⟨rfl, rfl⟩ := conclude_next hconclude
      rw [← (grow_steadiness hgrow).1, ← (perform_layout hperform).code]
      split <;> rfl

lemma SameFrame.code {c c' : Configuration} (h : SameFrame c c') :
    c'.machine.code = c.machine.code := by
  induction h with
  | refl => rfl
  | tail _ hnext ih => exact hnext.code.trans ih

lemma byte_of_codeSize {op : Opcode} (h : op.instruction? = some (.reading .codeSize)) :
    op.byte = 0x38 := by
  have hrows : ∀ k : Fin 256, Opcode.decode (k.val / 16) (k.val % 16) =
      some (.reading .codeSize) → k = 0x38 := by
    decide +kernel
  exact UInt8.toNat.inj (congrArg Fin.val (hrows op.index h))

/-- A frame never reads the size of a code in which the byte for that does not occur. -/
theorem not_executes_codeSize {c later : Configuration} (h : Running c.machine c.executor)
    (hcode : 0x38 ∉ c.machine.code) (hlater : SameFrame c later) :
    ¬Executes later (.reading .codeSize) := by
  rintro ⟨task, grown, ready, hperforms, hinstruction⟩
  have hvetted := hperforms.vetted.1
  obtain ⟨-, hop, -⟩ := task_of_standard (h.later hlater).standard hvetted
  rw [hinstruction] at hop
  obtain ⟨byte, hbyte, hread⟩ := Option.map_eq_some_iff.mp (task_of_admitted hvetted).1
  have hmem := Array.mem_of_getElem? hbyte
  rw [hlater.code] at hmem
  rw [← hread] at hop
  have hsize : byte = 0x38 := byte_of_codeSize hop
  rw [hsize] at hmem
  exact hcode hmem

/-- Stores the word of code at its own start, of which it lacks the last bytes, and breaks off
inside the operand of a push. -/
def brokenCode : Bytes :=
  #[0x60, 0x20, 0x60, 0, 0x60, 0, 0x39, 0x60, 0, 0x51, 0x60, 0, 0x55, 0x61, 0xab]

def brokenExecutor : Executor := (Executor.new (.ofAccounts ∅) .homestead .zero).reset 0xc 90000

theorem trailing_zeros_change_nothing_brokenCode :
    ∃ after, (run 12 ⟨0xa, 0xc, 0⟩ (.start (brokenCode ++ Array.replicate 40 0) #[] 1024 4096)
        brokenExecutor).map ending = some (.succeed .stopped, #[], after) ∧
      after.gas = 69970 ∧
      after.world.storage 0xa 0 =
        0x6020600060003960005160005561ab0000000000000000000000000000000000 := by
  have hreachable : Reachable brokenExecutor := .reset (.new _ _ _) _ _
  have hstandard : IsStandard brokenExecutor.instructions := .inr rfl
  have hsame := trailing_zeros_change_nothing hreachable hstandard ⟨0xa, 0xc, 0⟩ brokenCode #[]
    1024 4096
    (fun later => not_executes_codeSize
      (.start hreachable hstandard brokenCode #[] 1024 4096) (by decide +kernel)) 40 12
  have hends : ((run 12 ⟨0xa, 0xc, 0⟩ (.start brokenCode #[] 1024 4096)
      brokenExecutor).map ending).map
        (fun r => (r.1, r.2.1, r.2.2.gas, r.2.2.world.storage 0xa 0)) =
          some (.succeed .stopped, #[], 69970,
            0x6020600060003960005160005561ab0000000000000000000000000000000000) := by
    decide +kernel
  obtain ⟨⟨exit, output, after⟩, hrun, hafter⟩ := Option.map_eq_some_iff.mp hends
  simp only [Prod.mk.injEq] at hafter
  obtain ⟨rfl, rfl, hgas, hstored⟩ := hafter
  exact ⟨after, hsame.trans hrun, hgas, hstored⟩

end ContractMachine.Proofs
