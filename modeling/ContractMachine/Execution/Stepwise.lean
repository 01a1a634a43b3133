import ContractMachine.Execution.Run

/-!
# Watching a frame

Runs a frame for a bounded number of steps and notes what each step leaves.
-/

namespace ContractMachine

/-- What a step started at, and what it left. -/
structure Observation where
  position : Nat
  op : Option Opcode
  gas : Nat
  height : Nat
  top : Option Word
  memorySize : Nat

/-- What a bounded run came to; no exit if the steps ran out. -/
structure Watched where
  observations : List Observation
  exit : Option Exit
  machine : Machine
  executor : Executor

/-- The observation of a step that began at `position`. -/
def Observation.make (position : Nat) (op : Option Opcode) (m : Machine) (ex : Executor) :
    Observation :=
  ⟨position, op, ex.gas, m.stack.height, m.stack.items.head?, m.memory.size⟩

/-- Runs a frame for at most `steps` steps. The observations so far are given latest first. -/
def watch (context : Context) :
    (steps : Nat) → List Observation → Machine → Executor → Option Watched
  | 0, seen, m, ex => some ⟨seen.reverse, none, m, ex⟩
  | steps + 1, seen, m, ex =>
    let position := m.position
    let op := m.opcode?
    match step (run ex.stepAllowance) context m ex with
    | none => none
    | some (.next m ex) =>
      watch context steps (Observation.make position op m ex :: seen) m ex
    | some (.exit exit m ex) =>
      some ⟨(Observation.make position op m ex :: seen).reverse, some exit, m, ex⟩

end ContractMachine
