import ContractMachine.Word

/-!
# Keccak-256

The sponge over twenty-five 64-bit lanes with a rate of 136 bytes, padded by a one bit, zeros and
a one bit in the last byte. The lanes are kept as five planes of five lanes.
-/

namespace ContractMachine.Keccak

/-- Five lanes in a row. -/
structure Plane where
  a : UInt64
  b : UInt64
  c : UInt64
  d : UInt64
  e : UInt64

/-- The sponge state. -/
structure State where
  p : Plane
  q : Plane
  r : Plane
  s : Plane
  t : Plane

def Plane.zero : Plane := ⟨0, 0, 0, 0, 0⟩

def State.zero : State := ⟨.zero, .zero, .zero, .zero, .zero⟩

def Plane.xor (x y : Plane) : Plane :=
  ⟨x.a ^^^ y.a, x.b ^^^ y.b, x.c ^^^ y.c, x.d ^^^ y.d, x.e ^^^ y.e⟩

/-- Rotation of a lane to the left. -/
def rotate (x : UInt64) (n : UInt64) : UInt64 := (x <<< n) ||| (x >>> (64 - n))

/-- Adds to every lane the parities of two neighbouring columns. -/
def State.mixColumns (x : State) : State :=
  let parity := x.p.xor (x.q.xor (x.r.xor (x.s.xor x.t)))
  let effect : Plane :=
    ⟨parity.e ^^^ rotate parity.b 1, parity.a ^^^ rotate parity.c 1,
      parity.b ^^^ rotate parity.d 1, parity.c ^^^ rotate parity.e 1,
      parity.d ^^^ rotate parity.a 1⟩
  ⟨x.p.xor effect, x.q.xor effect, x.r.xor effect, x.s.xor effect, x.t.xor effect⟩

/-- Rotates each lane by its own amount and moves it to its new place. -/
def State.scatter (x : State) : State :=
  ⟨⟨x.p.a, rotate x.q.b 44, rotate x.r.c 43, rotate x.s.d 21, rotate x.t.e 14⟩,
    ⟨rotate x.p.d 28, rotate x.q.e 20, rotate x.r.a 3, rotate x.s.b 45, rotate x.t.c 61⟩,
    ⟨rotate x.p.b 1, rotate x.q.c 6, rotate x.r.d 25, rotate x.s.e 8, rotate x.t.a 18⟩,
    ⟨rotate x.p.e 27, rotate x.q.a 36, rotate x.r.b 10, rotate x.s.c 15, rotate x.t.d 56⟩,
    ⟨rotate x.p.c 62, rotate x.q.d 55, rotate x.r.e 39, rotate x.s.a 41, rotate x.t.b 2⟩⟩

/-- The only step that is not linear: each lane takes in the next two of its plane. -/
def Plane.combine (x : Plane) : Plane :=
  ⟨x.a ^^^ (~~~x.b &&& x.c), x.b ^^^ (~~~x.c &&& x.d), x.c ^^^ (~~~x.d &&& x.e),
    x.d ^^^ (~~~x.e &&& x.a), x.e ^^^ (~~~x.a &&& x.b)⟩

def round (x : State) (constant : UInt64) : State :=
  let y := x.mixColumns.scatter
  let first := y.p.combine
  ⟨{ first with a := first.a ^^^ constant }, y.q.combine, y.r.combine, y.s.combine, y.t.combine⟩

def roundConstants : List UInt64 :=
  [0x0000000000000001, 0x0000000000008082, 0x800000000000808a, 0x8000000080008000,
    0x000000000000808b, 0x0000000080000001, 0x8000000080008081, 0x8000000000008009,
    0x000000000000008a, 0x0000000000000088, 0x0000000080008009, 0x000000008000000a,
    0x000000008000808b, 0x800000000000008b, 0x8000000000008089, 0x8000000000008003,
    0x8000000000008002, 0x8000000000000080, 0x000000000000800a, 0x800000008000000a,
    0x8000000080008081, 0x8000000000008080, 0x0000000080000001, 0x8000000080008008]

def permute (x : State) : State := roundConstants.foldl round x

/-- The bytes absorbed in one block. -/
def rate : Nat := 136

/-- Byte `i` of the padded input, whose last byte is at `last`. -/
def paddedByte (input : Bytes) (last i : Nat) : UInt8 :=
  let byte := if i = input.size then 1 else input.at0 i
  if i = last then byte ||| 0x80 else byte

/-- The lane of the eight padded bytes from `i` on, least significant first. -/
def lane (input : Bytes) (last i : Nat) : UInt64 :=
  let byte := fun k => (paddedByte input last (i + k)).toUInt64
  byte 0 ||| byte 1 <<< 8 ||| byte 2 <<< 16 ||| byte 3 <<< 24 ||| byte 4 <<< 32
    ||| byte 5 <<< 40 ||| byte 6 <<< 48 ||| byte 7 <<< 56

/-- Takes the block that starts at `i` into the state. -/
def absorbBlock (input : Bytes) (last i : Nat) (x : State) : State :=
  let word := fun k => lane input last (i + 8 * k)
  permute
    ⟨x.p.xor ⟨word 0, word 1, word 2, word 3, word 4⟩,
      x.q.xor ⟨word 5, word 6, word 7, word 8, word 9⟩,
      x.r.xor ⟨word 10, word 11, word 12, word 13, word 14⟩,
      x.s.xor ⟨word 15, word 16, 0, 0, 0⟩,
      x.t⟩

/-- Takes in `blocks` blocks from `i` on. -/
def absorb (input : Bytes) (last : Nat) : (blocks i : Nat) → State → State
  | 0, _, x => x
  | blocks + 1, i, x => absorb input last blocks (i + rate) (absorbBlock input last i x)

/-- A lane read as a number, its least significant byte first. -/
def laneValue (x : UInt64) : Nat :=
  (List.range 8).foldl (fun n k => n * 256 + ((x >>> UInt64.ofNat (8 * k)) &&& 0xff).toNat) 0

/-- The 256-bit digest. -/
def digest (input : Bytes) : Word :=
  let blocks := input.size / rate + 1
  let x := (absorb input (blocks * rate - 1) blocks 0 .zero).p
  BitVec.ofNat 256
    ([x.a, x.b, x.c, x.d].foldl (fun n lane => n * Quantity.limit + laneValue lane) 0)

end ContractMachine.Keccak
