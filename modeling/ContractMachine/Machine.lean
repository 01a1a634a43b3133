import ContractMachine.JumpTable
import ContractMachine.Memory
import ContractMachine.Stack

/-!
# The machine of a frame

The code that a frame runs, its input, and the state that its instructions change.
-/

namespace ContractMachine

structure Machine where
  code : Bytes
  input : Bytes
  position : Nat
  /-- The memory region that the frame returns, from its start up to its stop. -/
  returnStart : Nat
  returnStop : Nat
  jumps : JumpTable
  memory : Memory
  stack : Stack

namespace Machine

/-- A machine at the start of a code. -/
def start (code input : Bytes) (stackLimit memoryLimit : Nat) : Machine where
  code := code
  input := input
  position := 0
  returnStart := 0
  returnStop := 0
  jumps := JumpTable.ofCode code
  memory := Memory.empty memoryLimit
  stack := Stack.empty stackLimit

/-- The opcode at the position, none past the end of the code. -/
def opcode? (m : Machine) : Option Opcode := m.code[m.position]?.map Opcode.mk

/-- Moves `n` bytes on, at most to the largest quantity. -/
def advance (n : Nat) (m : Machine) : Machine :=
  { m with position := Quantity.saturatingAdd m.position n }

def moveTo (position : Nat) (m : Machine) : Machine := { m with position := position }

/-- Makes the region the one that the frame returns. -/
def setReturn (start stop : Nat) (m : Machine) : Machine :=
  { m with returnStart := start, returnStop := stop }

/-- The bytes that the frame returns. -/
def returnValue (m : Machine) : Bytes :=
  if m.returnStop ≤ m.returnStart then #[]
  else m.memory.read m.returnStart (m.returnStop - m.returnStart)

/-- An action on the stack as one on the machine. -/
@[always_inline, inline]
def onStack {α : Type} (x : Action Stack α) : Action Machine α
  | ⟨code, input, position, returnStart, returnStop, jumps, memory, stack⟩ =>
    match x stack with
    | (result, stack) =>
      (result, ⟨code, input, position, returnStart, returnStop, jumps, memory, stack⟩)

/-- An action on the memory as one on the machine. -/
@[always_inline, inline]
def onMemory {α : Type} (x : Action Memory α) : Action Machine α
  | ⟨code, input, position, returnStart, returnStop, jumps, memory, stack⟩ =>
    match x memory with
    | (result, memory) =>
      (result, ⟨code, input, position, returnStart, returnStop, jumps, memory, stack⟩)

def pop : Action Machine Word := onStack Stack.pop

def push (w : Word) : Action Machine Unit := onStack (Stack.push w)

end Machine

end ContractMachine
