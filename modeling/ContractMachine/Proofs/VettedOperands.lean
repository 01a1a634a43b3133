import ContractMachine.Proofs.FrameTree
import ContractMachine.Proofs.OperandResults

/-!
# The operands of vetted instructions

An instruction is performed only where the stack holds its operands and the memory that it touches
ends at a quantity. Under a standard set a call or a creation that is performed therefore finds all
that it needs, and orders its frame.
-/

namespace ContractMachine.Proofs

/-- A vetted call finds all its operands. -/
lemma takeCall_of_vetted {scheme : CallScheme} {ex : Executor} {op : Opcode} {m : Machine}
    {memoryEnd : Option Nat}
    (h : ex.vet op (.standard (.call scheme)) m.stack = .ok memoryEnd) :
    ∃ request taken, Machine.takeCall scheme m = (.ok request, taken) := by
  obtain ⟨hoperands, hfits⟩ := vet_fits h
  obtain ⟨o, rest, -, hwindows, htake⟩ := takeCall_items hoperands
  have hinput := hfits o.input (by rw [hwindows]; exact List.mem_cons_self)
  exact ⟨_, _, htake m hinput⟩

/-- So does a vetted creation. -/
lemma takeCreation_of_vetted {ex : Executor} {op : Opcode} {m : Machine} {memoryEnd : Option Nat}
    (h : ex.vet op (.standard .create) m.stack = .ok memoryEnd) :
    ∃ value initCode taken, Machine.takeCreation m = (.ok (value, initCode), taken) := by
  obtain ⟨hoperands, hfits⟩ := vet_fits h
  obtain ⟨value, offset, length, rest, hitems, -⟩ := exists_three (n := 0) hoperands
  have hcode := hfits ⟨offset, length⟩ (by rw [hitems]; exact List.mem_singleton_self _)
  have htake : Machine.takeCreation (withItems (value :: offset :: length :: rest) m) =
      (.ok (value, m.memory.read offset.toNat length.toNat), withItems rest m) :=
    takeCreation_eq hcode
  rw [← hitems] at htake
  exact ⟨_, _, _, htake⟩

/-- A task that is performed finds its operands, room for what it puts back, and memory for its
windows. -/
lemma Performs.supplied {c : Configuration} {task : Task} {grown : Machine} {ready : Executor}
    (hs : IsStandard c.executor.instructions) (h : Performs c task grown ready) :
    Supplied task.operation.behaviour grown := by
  have hstandard := (task_of_standard hs h.vetted.1).2.2
  obtain ⟨-, hcheck, hneed⟩ := vet_ok (task_of_admitted h.vetted.1).2
  rw [hstandard] at hcheck hneed
  cases h with
  | intro hvetted hcharge hgrow => exact supplied_of_grown hcheck hneed hgrow

/-- Whether the instruction orders a frame. -/
def opensFrame : Instruction → Bool
  | .call _ | .create => true
  | _ => false

lemma Orders.opensFrame {c : Configuration} {task : Task} {order : Order} {ready : Executor}
    (h : Orders c task order ready) : opensFrame task.operation.behaviour = true := by
  cases h with
  | call hperforms hinstruction htake | create hperforms hinstruction htake =>
    rw [hinstruction]
    rfl

/-- A frame goes on with the instruction after the one that ordered a frame. -/
lemma conclude_opensFrame {task : Task} {i : Instruction}
    (hoperation : task.operation = .standard i) (hopens : opensFrame i = true) (m : Machine) :
    task.conclude .proceed m = (none, m.advance (1 + task.op.pushWidth)) := by
  have hgoes : task.operation.halts = false ∧ task.operation.jumps = false := by
    rw [hoperation]
    cases i with
    | call scheme => cases scheme <;> exact ⟨rfl, rfl⟩
    | create => exact ⟨rfl, rfl⟩
    | _ => cases hopens
  simp only [Task.conclude, hgoes, Bool.false_eq_true, if_false]

/-- Under a standard set every call and every creation that is performed orders a frame. -/
theorem Performs.orders {c : Configuration} {task : Task} {grown : Machine} {ready : Executor}
    (hs : IsStandard c.executor.instructions) (h : Performs c task grown ready)
    (hopens : opensFrame task.operation.behaviour = true) :
    ∃ order, Orders c task order ready := by
  obtain ⟨hvetted, hstack⟩ := h.vetted
  obtain ⟨-, -, hstandard⟩ := task_of_standard hs hvetted
  have hvet := (task_of_admitted hvetted).2
  rw [hstandard, ← hstack] at hvet
  generalize hinstruction : task.operation.behaviour = i at hopens hvet
  cases i with
  | call scheme =>
    obtain ⟨request, taken, htake⟩ := takeCall_of_vetted hvet
    exact ⟨_, .call h hinstruction htake⟩
  | create =>
    obtain ⟨value, initCode, taken, htake⟩ := takeCreation_of_vetted hvet
    exact ⟨_, .create h hinstruction htake⟩
  | _ => cases hopens

end ContractMachine.Proofs
