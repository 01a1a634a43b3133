import ContractMachine.Footprint

/-!
# Operations

An operation describes one opcode of an instruction set: what it does, its effect on the height of
the stack, the memory it touches, and how it bears on the flow of the frame. The operations of the
standard sets do one of the instructions and touch one of the footprints. Those of other sets may do
and touch anything, so that both are parameters.
-/

namespace ContractMachine

structure Operation (β : Type := Instruction) (φ : Type := Footprint) where
  behaviour : β
  /-- The number of items taken. -/
  pop : Nat
  /-- The number of items put back. -/
  push : Nat
  footprint : Option φ
  /-- Ends the frame. -/
  halts : Bool
  /-- Sets the position itself. -/
  jumps : Bool
  /-- Changes the world, which a read-only frame may not do. -/
  writes : Bool
  /-- Ends the frame with a revert. -/
  reverts : Bool
  /-- Belongs to the instruction set. -/
  valid : Bool
  deriving DecidableEq

namespace Operation

variable {β φ : Type}

/-- A plain operation of an instruction set. -/
def plain (behaviour : β) (pop push : Nat) : Operation β φ :=
  ⟨behaviour, pop, push, none, false, false, false, false, true⟩

/-- The operation of every opcode outside the instruction set. -/
def undefined : Operation := { plain .invalid 0 0 with valid := false }

def touching (o : Operation β φ) (footprint : φ) : Operation β φ :=
  { o with footprint := some footprint }

def halting (o : Operation β φ) : Operation β φ := { o with halts := true }

def jumping (o : Operation β φ) : Operation β φ := { o with jumps := true }

def writing (o : Operation β φ) : Operation β φ := { o with writes := true }

/-- Halting with a revert. -/
def reverting (o : Operation β φ) : Operation β φ := { o with halts := true, reverts := true }

/-- Checks the stack against the two counts. -/
def checkStack (o : Operation β φ) (s : Stack) : Except Fault Unit := s.check o.pop o.push

/-- Whether two operations declare the same, whatever they do. -/
def sameShape (a b : Operation β φ) : Bool :=
  a.valid == b.valid && a.pop == b.pop && a.push == b.push
    && a.footprint.isSome == b.footprint.isSome && a.halts == b.halts && a.jumps == b.jumps
    && a.writes == b.writes && a.reverts == b.reverts

/-- The operation of an instruction in the standard sets. -/
def standard : Instruction → Operation
  | .stop => (plain .stop 0 0).halting
  | .unary op => plain (.unary op) 1 1
  | .binary op => plain (.binary op) 2 1
  | .ternary op => plain (.ternary op) 3 1
  | .sha3 => (plain .sha3 2 1).touching (.region 0 1)
  | .reading value => plain (.reading value) 0 1
  | .balance => plain .balance 1 1
  | .callDataLoad => plain .callDataLoad 1 1
  | .callDataCopy => (plain .callDataCopy 3 0).touching (.region 0 2)
  | .codeCopy => (plain .codeCopy 3 0).touching (.region 0 2)
  | .extCodeSize => plain .extCodeSize 1 1
  | .extCodeCopy => (plain .extCodeCopy 4 0).touching (.region 1 3)
  | .blockHash => plain .blockHash 1 1
  | .pop => plain .pop 1 0
  | .mload => (plain .mload 1 1).touching (.span 0 32)
  | .mstore => (plain .mstore 2 0).touching (.span 0 32)
  | .mstore8 => (plain .mstore8 2 0).touching (.span 0 1)
  | .sload => plain .sload 1 1
  | .sstore => (plain .sstore 2 0).writing
  | .jump => (plain .jump 1 0).jumping
  | .jumpIf => (plain .jumpIf 2 0).jumping
  | .jumpDest => plain .jumpDest 0 0
  | .push width => plain (.push width) 0 1
  | .dup n => plain (.dup n) n (n + 1)
  | .swap n => plain (.swap n) (n + 1) (n + 1)
  | .log topics => ((plain (.log topics) (topics + 2) 0).touching (.region 0 1)).writing
  | .create => ((plain .create 3 1).touching (.region 1 2)).writing
  | .call .delegateCall => (plain (.call .delegateCall) 6 1).touching (.regions 2 3 4 5)
  | .call scheme => (plain (.call scheme) 7 1).touching (.regions 3 4 5 6)
  | .ret => ((plain .ret 2 0).touching (.region 0 1)).halting
  | .selfDestruct => (plain .selfDestruct 1 0).halting.writing
  | .invalid => undefined

/-- One line that shows the shape. -/
def text (o : Operation β φ) : String :=
  "Operation \x7b pop: " ++ toString o.pop ++ ", push: " ++ toString o.push ++
    ", memory: " ++ toString o.footprint.isSome ++ ", halts: " ++ toString o.halts ++
    ", jumps: " ++ toString o.jumps ++ ", writes: " ++ toString o.writes ++
    ", reverts: " ++ toString o.reverts ++ ", valid: " ++ toString o.valid ++ " \x7d"

end Operation

end ContractMachine
