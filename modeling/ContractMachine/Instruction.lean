import ContractMachine.Word.Arithmetic

/-!
# Instructions

What an operation does, with the families of one shape kept together. Operands are named from the
top of the stack down.
-/

namespace ContractMachine

/-- Instructions that replace the top of the stack. -/
inductive UnaryOp
  | isZero
  | not
  deriving DecidableEq

/-- Instructions that replace the two top items by one. -/
inductive BinaryOp
  | add | mul | sub | div | sdiv | mod | smod | exp | signExtend
  | lt | gt | slt | sgt | eq | and | or | xor | byte
  deriving DecidableEq

/-- Instructions that replace the three top items by one. -/
inductive TernaryOp
  | addMod
  | mulMod
  deriving DecidableEq

/-- The values around a frame that an instruction can push. -/
inductive Reading
  | address | origin | caller | callValue | callDataSize | codeSize | gasPrice
  | coinbase | timestamp | number | difficulty | gasLimit
  | position | memorySize | gas
  deriving DecidableEq

/-- How a frame runs the code of another account. -/
inductive CallScheme
  /-- The target's code on the target's storage. -/
  | call
  /-- The target's code on the caller's storage. -/
  | callCode
  /-- The target's code on the caller's storage, for the caller's caller and value. -/
  | delegateCall
  deriving DecidableEq

/-- What an operation does. -/
inductive Instruction
  | stop
  | unary (op : UnaryOp)
  | binary (op : BinaryOp)
  | ternary (op : TernaryOp)
  | sha3
  | reading (value : Reading)
  | balance
  | callDataLoad
  | callDataCopy
  | codeCopy
  | extCodeSize
  | extCodeCopy
  | blockHash
  | pop
  | mload
  | mstore
  | mstore8
  | sload
  | sstore
  | jump
  | jumpIf
  | jumpDest
  /-- Pushes the `width` code bytes after the opcode. -/
  | push (width : Nat)
  /-- Pushes a copy of item `n`, counted from one. -/
  | dup (n : Nat)
  /-- Exchanges the top with the item `n` below it. -/
  | swap (n : Nat)
  | log (topics : Nat)
  | create
  | call (scheme : CallScheme)
  | ret
  | selfDestruct
  | invalid
  deriving DecidableEq

namespace UnaryOp

def apply : UnaryOp → Word → Word
  | isZero, a => Word.ofBool (a == 0)
  | not, a => ~~~a

def name : UnaryOp → String
  | isZero => "ISZERO"
  | not => "NOT"

end UnaryOp

namespace BinaryOp

def apply : BinaryOp → Word → Word → Word
  | add, a, b => a + b
  | mul, a, b => a * b
  | sub, a, b => a - b
  | div, a, b => Word.div a b
  | sdiv, a, b => Word.sdiv a b
  | mod, a, b => Word.mod a b
  | smod, a, b => Word.smod a b
  | exp, a, b => Word.exp a b
  | signExtend, a, b => Word.signExtend a b
  | lt, a, b => Word.ofBool (decide (a < b))
  | gt, a, b => Word.ofBool (decide (b < a))
  | slt, a, b => Word.slt a b
  | sgt, a, b => Word.sgt a b
  | eq, a, b => Word.ofBool (a == b)
  | and, a, b => a &&& b
  | or, a, b => a ||| b
  | xor, a, b => a ^^^ b
  | byte, a, b => Word.byte a b

def name : BinaryOp → String
  | add => "ADD"
  | mul => "MUL"
  | sub => "SUB"
  | div => "DIV"
  | sdiv => "SDIV"
  | mod => "MOD"
  | smod => "SMOD"
  | exp => "EXP"
  | signExtend => "SIGNEXTEND"
  | lt => "LT"
  | gt => "GT"
  | slt => "SLT"
  | sgt => "SGT"
  | eq => "EQ"
  | and => "AND"
  | or => "OR"
  | xor => "XOR"
  | byte => "BYTE"

end BinaryOp

namespace TernaryOp

def apply : TernaryOp → Word → Word → Word → Word
  | addMod, a, b, m => Word.addMod a b m
  | mulMod, a, b, m => Word.mulMod a b m

def name : TernaryOp → String
  | addMod => "ADDMOD"
  | mulMod => "MULMOD"

end TernaryOp

def Reading.name : Reading → String
  | address => "ADDRESS"
  | origin => "ORIGIN"
  | caller => "CALLER"
  | callValue => "CALLVALUE"
  | callDataSize => "CALLDATASIZE"
  | codeSize => "CODESIZE"
  | gasPrice => "GASPRICE"
  | coinbase => "COINBASE"
  | timestamp => "TIMESTAMP"
  | number => "NUMBER"
  | difficulty => "DIFFICULTY"
  | gasLimit => "GASLIMIT"
  | position => "PC"
  | memorySize => "MSIZE"
  | gas => "GAS"

def CallScheme.name : CallScheme → String
  | call => "CALL"
  | callCode => "CALLCODE"
  | delegateCall => "DELEGATECALL"

/-- The mnemonic. -/
def Instruction.name : Instruction → String
  | stop => "STOP"
  | unary op => op.name
  | binary op => op.name
  | ternary op => op.name
  | sha3 => "SHA3"
  | reading value => value.name
  | balance => "BALANCE"
  | callDataLoad => "CALLDATALOAD"
  | callDataCopy => "CALLDATACOPY"
  | codeCopy => "CODECOPY"
  | extCodeSize => "EXTCODESIZE"
  | extCodeCopy => "EXTCODECOPY"
  | blockHash => "BLOCKHASH"
  | pop => "POP"
  | mload => "MLOAD"
  | mstore => "MSTORE"
  | mstore8 => "MSTORE8"
  | sload => "SLOAD"
  | sstore => "SSTORE"
  | jump => "JUMP"
  | jumpIf => "JUMPI"
  | jumpDest => "JUMPDEST"
  | push width => "PUSH" ++ toString width
  | dup n => "DUP" ++ toString n
  | swap n => "SWAP" ++ toString n
  | log topics => "LOG" ++ toString topics
  | create => "CREATE"
  | call scheme => scheme.name
  | ret => "RETURN"
  | selfDestruct => "SELFDESTRUCT"
  | invalid => "INVALID"

end ContractMachine
