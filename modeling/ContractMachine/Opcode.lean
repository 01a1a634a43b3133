import ContractMachine.Instruction

/-!
# Opcodes

An opcode is a byte of code. The bytes that name an instruction are laid out in rows of sixteen.
-/

namespace ContractMachine

/-- A byte of code in the place of an instruction. -/
structure Opcode where
  byte : UInt8
  deriving DecidableEq

namespace Opcode

def jumpDest : Opcode := ⟨0x5b⟩
def call : Opcode := ⟨0xf1⟩
def delegateCall : Opcode := ⟨0xf4⟩

/-- The opcode as a place in a table of 256 entries. -/
def index (op : Opcode) : Fin 256 := ⟨op.byte.toNat, op.byte.toNat_lt⟩

/-- All opcodes, in order. -/
def all : List Opcode := (List.range 256).map fun n => ⟨UInt8.ofNat n⟩

/-- Row `0x00`: stop and arithmetic. -/
def arithmeticRow : List Instruction :=
  [.stop, .binary .add, .binary .mul, .binary .sub, .binary .div, .binary .sdiv, .binary .mod,
    .binary .smod, .ternary .addMod, .ternary .mulMod, .binary .exp, .binary .signExtend]

/-- Row `0x10`: comparison and bits. -/
def logicRow : List Instruction :=
  [.binary .lt, .binary .gt, .binary .slt, .binary .sgt, .binary .eq, .unary .isZero,
    .binary .and, .binary .or, .binary .xor, .unary .not, .binary .byte]

/-- Row `0x30`: the accounts and the input around the frame. -/
def accountRow : List Instruction :=
  [.reading .address, .balance, .reading .origin, .reading .caller, .reading .callValue,
    .callDataLoad, .reading .callDataSize, .callDataCopy, .reading .codeSize, .codeCopy,
    .reading .gasPrice, .extCodeSize, .extCodeCopy]

/-- Row `0x40`: the block. -/
def blockRow : List Instruction :=
  [.blockHash, .reading .coinbase, .reading .timestamp, .reading .number, .reading .difficulty,
    .reading .gasLimit]

/-- Row `0x50`: stack, memory, storage and flow. -/
def flowRow : List Instruction :=
  [.pop, .mload, .mstore, .mstore8, .sload, .sstore, .jump, .jumpIf, .reading .position,
    .reading .memorySize, .reading .gas, .jumpDest]

/-- Row `0xf0`: other frames and the end of this one. -/
def systemRow : Nat → Option Instruction
  | 0x0 => some .create
  | 0x1 => some (.call .call)
  | 0x2 => some (.call .callCode)
  | 0x3 => some .ret
  | 0x4 => some (.call .delegateCall)
  | 0xe => some .invalid
  | 0xf => some .selfDestruct
  | _ => none

/-- The instruction in column `column` of row `row`. -/
def decode (row column : Nat) : Option Instruction :=
  match row with
  | 0x0 => arithmeticRow[column]?
  | 0x1 => logicRow[column]?
  | 0x2 => if column = 0 then some .sha3 else none
  | 0x3 => accountRow[column]?
  | 0x4 => blockRow[column]?
  | 0x5 => flowRow[column]?
  | 0x6 => some (.push (column + 1))
  | 0x7 => some (.push (column + 17))
  | 0x8 => some (.dup (column + 1))
  | 0x9 => some (.swap (column + 1))
  | 0xa => if column < 5 then some (.log column) else none
  | 0xf => systemRow column
  | _ => none

/-- The instruction that the byte names, if it names one. -/
def instruction? (op : Opcode) : Option Instruction :=
  decode (op.byte.toNat / 16) (op.byte.toNat % 16)

/-- The mnemonic. -/
def name? (op : Opcode) : Option String := op.instruction?.map Instruction.name

/-- The mnemonic and the number of the byte. -/
def text (op : Opcode) : String :=
  op.name?.getD "UNKNOWN" ++ " [" ++ toString op.byte.toNat ++ "]"

/-- The width of the immediate operand of a push. -/
def pushWidth? (op : Opcode) : Option Nat :=
  if 0x60 ≤ op.byte.toNat ∧ op.byte.toNat ≤ 0x7f then some (op.byte.toNat - 0x5f) else none

/-- The number of code bytes after the opcode that belong to it. -/
def pushWidth (op : Opcode) : Nat := op.pushWidth?.getD 0

end Opcode

end ContractMachine
