import ContractMachine.Operation

/-!
# Instruction sets

An instruction set describes each of the 256 opcodes. Sets are values: an overlay makes a new set
and leaves its base as it is.
-/

namespace ContractMachine

structure InstructionSet (β : Type := Instruction) (φ : Type := Footprint) where
  operations : Vector (Operation β φ) 256

namespace InstructionSet

variable {β φ : Type}

/-- The set that describes each opcode by `f`. -/
def ofFn (f : Opcode → Operation β φ) : InstructionSet β φ :=
  ⟨Vector.ofFn fun i => f ⟨UInt8.ofNat i⟩⟩

/-- The operation of an opcode. -/
def get (s : InstructionSet β φ) (op : Opcode) : Operation β φ := s.operations.get op.index

/-- The set with one opcode described anew. -/
def replace (s : InstructionSet β φ) (op : Opcode) (o : Operation β φ) : InstructionSet β φ :=
  ⟨s.operations.set op.index.val o op.index.isLt⟩

/-- The set with some opcodes described anew, later descriptions before earlier ones. -/
def overlay (base : InstructionSet β φ) (overrides : List (Opcode × Operation β φ)) :
    InstructionSet β φ :=
  overrides.foldl (fun s entry => s.replace entry.1 entry.2) base

/-- The opcodes that belong to the set, in order. -/
def validOpcodes (s : InstructionSet β φ) : List Opcode :=
  Opcode.all.filter fun op => (s.get op).valid

/-- Whether every opcode of `other` has the same shape here. -/
def isSupersetOf (s other : InstructionSet β φ) : Bool :=
  other.validOpcodes.all fun op => (s.get op).sameShape (other.get op)

/-- The set without any opcode. -/
def empty : InstructionSet := ofFn fun _ => .undefined

/-- The instructions of the first release. -/
def frontier : InstructionSet :=
  ofFn fun op =>
    match op.instruction? with
    | none | some (.call .delegateCall) => .undefined
    | some instruction => .standard instruction

/-- The first release and `DELEGATECALL`. -/
def homestead : InstructionSet :=
  frontier.replace .delegateCall (.standard (.call .delegateCall))

end InstructionSet

end ContractMachine
