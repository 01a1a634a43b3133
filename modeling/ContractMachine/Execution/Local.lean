import ContractMachine.Executor

/-!
# Instructions on the machine alone

Each action takes its operands from the top of the stack down. A fault leaves the operands that
were taken already off the stack.
-/

namespace ContractMachine

/-- What an operation asks of the frame. -/
inductive Control
  | proceed
  | halt (halt : Halt)
  | exit (exit : Exit)
  deriving DecidableEq

/-- To end the frame in a fault. -/
@[match_pattern]
abbrev Control.fault (fault : Fault) : Control := .exit (.fault fault)

/-- The word that a reading gives. -/
def Reading.value {β φ : Type} (context : Context) (m : Machine) (ex : Executor β φ) :
    Reading → Word
  | address => context.address.toWord
  | origin => ex.origin.toWord
  | caller => context.caller.toWord
  | callValue => context.value
  | callDataSize => BitVec.ofNat 256 m.input.size
  | codeSize => BitVec.ofNat 256 m.code.size
  | gasPrice => ex.environment.gasPrice
  | coinbase => ex.environment.coinbase.toWord
  | timestamp => ex.environment.timestamp
  | number => ex.environment.blockNumber
  | difficulty => ex.environment.difficulty
  | gasLimit => ex.environment.gasLimit
  | position => BitVec.ofNat 256 m.position
  | memorySize => BitVec.ofNat 256 m.memory.size
  | gas => BitVec.ofNat 256 ex.gas

namespace Machine

/-- A word as a quantity, with the fault that a greater word gives. -/
@[inline]
def quantity (w : Word) (e : Fault) : Action Machine Nat :=
  match w.toQuantity? with
  | some q => pure q
  | none => Action.fault e

/-- The memory region of `length` bytes from `offset` on; no bytes need no offset. -/
def region (offset length : Word) : Action Machine Bytes :=
  if length = 0 then pure #[]
  else do
    let offset ← quantity offset .outOfGas
    let length ← quantity length .outOfGas
    Action.read fun m => m.memory.read offset length

def unary (op : UnaryOp) : Action Machine Unit := do
  let a ← pop
  push (op.apply a)

def binary (op : BinaryOp) : Action Machine Unit := do
  let a ← pop
  let b ← pop
  push (op.apply a b)

def ternary (op : TernaryOp) : Action Machine Unit := do
  let a ← pop
  let b ← pop
  let c ← pop
  push (op.apply a b c)

def sha3 : Action Machine Unit := do
  let offset ← pop
  let length ← pop
  let data ← region offset length
  push (Keccak.digest data)

/-- Replaces the top by what `f` finds for it. -/
def lookup (f : Word → Word) : Action Machine Unit := do
  let key ← pop
  push (f key)

def callDataLoad : Action Machine Unit := do
  let index ← pop
  let word ← Action.read fun m => Word.ofBytes (m.input.window index.toNat 32)
  push word

/-- Copies a part of `source` into memory. -/
def copy (source : Machine → Bytes) : Action Machine Unit := do
  let offset ← pop
  let sourceOffset ← pop
  let length ← pop
  let bytes ← Action.read source
  onMemory (Memory.copy offset sourceOffset length bytes)

/-- Copies a part of the code of another account into memory. -/
def extCodeCopy (code : Address → Bytes) : Action Machine Unit := do
  let address ← pop
  copy fun _ => code address.toAddress

def discard : Action Machine Unit := do
  let _ ← pop

def mload : Action Machine Unit := do
  let index ← pop
  let offset ← quantity index .outOfGas
  let word ← Action.read fun m => Word.ofBytes (m.memory.read offset 32)
  push word

def mstore : Action Machine Unit := do
  let index ← pop
  let word ← pop
  let offset ← quantity index .outOfGas
  onMemory (Memory.writeWord offset word)

def mstore8 : Action Machine Unit := do
  let index ← pop
  let word ← pop
  let offset ← quantity index .outOfGas
  onMemory (Memory.fill offset 1 fun _ => word.byteAt 31)

/-- Goes to a jump destination. -/
def jumpTo (destination : Word) : Action Machine Unit := do
  let position ← quantity destination .invalidJump
  let isValid ← Action.read fun m => m.jumps.isValid position
  if isValid then Action.modify (moveTo position) else Action.fault .invalidJump

def jump : Action Machine Unit := do
  let destination ← pop
  jumpTo destination

/-- Jumps unless the condition is zero. -/
def jumpIf : Action Machine Unit := do
  let destination ← pop
  let condition ← pop
  if condition = 0 then Action.modify (advance 1) else jumpTo destination

/-- Pushes the code bytes after the position; bytes past the end of the code are zero. -/
def pushImmediate (width : Nat) : Action Machine Unit := do
  let word ← Action.read fun m => Word.ofBytes (m.code.window (m.position + 1) width)
  push word

def dup (n : Nat) : Action Machine Unit := do
  let word ← Action.query fun m => m.stack.peek (n - 1)
  push word

def swap (n : Nat) : Action Machine Unit := do
  let top ← Action.query fun m => m.stack.peek 0
  let other ← Action.query fun m => m.stack.peek n
  onStack (Stack.set 0 other)
  onStack (Stack.set n top)

/-- Sets the region that the frame returns. -/
def ret : Action Machine Unit := do
  let offset ← pop
  let length ← pop
  if length = 0 then Action.modify (setReturn 0 0)
  else do
    let start ← quantity offset .outOfGas
    let count ← quantity length .outOfGas
    Action.modify (setReturn start (start + count))

/-- The operands of a write to storage. -/
def takeStore : Action Machine (Word × Word) := do
  let slot ← pop
  let value ← pop
  pure (slot, value)

/-- Takes `n` items off the stack, the top first. -/
def takeItems : Nat → Action Machine (List Word)
  | 0 => pure []
  | n + 1 => do
    let item ← pop
    let rest ← takeItems n
    pure (item :: rest)

/-- The topics and the data of a log. -/
def takeLog (topics : Nat) : Action Machine (List Word × Bytes) := do
  let offset ← pop
  let length ← pop
  let data ← region offset length
  let items ← takeItems topics
  pure (items, data)

/-- The value and the init code of a creation. -/
def takeCreation : Action Machine (Word × Bytes) := do
  let value ← pop
  let offset ← pop
  let length ← pop
  let initCode ← region offset length
  pure (value, initCode)

/-- The operands of a call, the input already read. -/
structure CallRequest where
  gas : Word
  target : Address
  value : Word
  input : Bytes
  outOffset : Word
  outLength : Word

/-- The value operand of a call; a delegated call has none. -/
def takeCallValue : CallScheme → Action Machine Word
  | .call | .callCode => pop
  | .delegateCall => pure 0

def takeCall (scheme : CallScheme) : Action Machine CallRequest := do
  let gas ← pop
  let target ← pop
  let value ← takeCallValue scheme
  let inOffset ← pop
  let inLength ← pop
  let outOffset ← pop
  let outLength ← pop
  let input ← region inOffset inLength
  pure ⟨gas, target.toAddress, value, input, outOffset, outLength⟩

/-- Copies what fits of the output of a call into the memory set aside for it. -/
def putOutput (request : CallRequest) (output : Bytes) : Action Machine Unit :=
  if request.outLength = 0 then pure ()
  else do
    let offset ← quantity request.outOffset .outOfGas
    let length ← quantity request.outLength .outOfGas
    onMemory (Memory.write offset output (min length output.size))

/-- Ends a call in the frame that made it. -/
def finishCall (request : CallRequest) (exit : Exit) (output : Bytes) : Action Machine Unit := do
  if exit.isSuccess then
    putOutput request output
    push 1
  else push 0

/-- Ends a creation in the frame that made it. A contract whose code was not paid for exists. -/
def finishCreation (exit : Exit) (created : Option Address) : Action Machine Unit :=
  if exit.isSuccess || exit == .fault .codeStoreOutOfGas then
    push ((created.map Address.toWord).getD 0)
  else push 0

end Machine

end ContractMachine
