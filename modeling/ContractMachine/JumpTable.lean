import ContractMachine.Opcode

/-!
# Jump destinations

A position is a jump destination if a `JUMPDEST` starts there and is not immediate data of a push.
-/

namespace ContractMachine

/-- For each position of a code whether it is a jump destination. -/
structure JumpTable where
  marks : Array Bool
  deriving DecidableEq

namespace JumpTable

/-- Marks the destinations from position `i` on, where an instruction starts. -/
def scan (code : Bytes) (i : Nat) (marks : Array Bool) : Array Bool :=
  if h : i < code.size then
    let op : Opcode := ⟨code[i]⟩
    let marks := if op = Opcode.jumpDest then marks.setIfInBounds i true else marks
    scan code (i + 1 + op.pushWidth) marks
  else marks
termination_by code.size - i

/-- The destinations of a code. -/
def ofCode (code : Bytes) : JumpTable := ⟨scan code 0 (Array.replicate code.size false)⟩

def size (t : JumpTable) : Nat := t.marks.size

/-- Whether a jump may go to `position`. -/
def isValid (t : JumpTable) (position : Nat) : Bool := t.marks.getD position false

end JumpTable

end ContractMachine
