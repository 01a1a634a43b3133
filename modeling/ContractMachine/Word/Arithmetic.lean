import ContractMachine.Word.Signed

/-!
# Arithmetic and logic of words

The operations that instructions apply to their operands, the first operand being the top of the
stack. Division and remainder by zero give zero.
-/

namespace ContractMachine.Word

/-- Unsigned division. -/
def div (a b : Word) : Word := if b = 0 then 0 else a / b

/-- Unsigned remainder. -/
def mod (a b : Word) : Word := if b = 0 then 0 else a % b

/-- Signed division. -/
def sdiv (a b : Word) : Word := ((SignedWord.ofWord a).div (SignedWord.ofWord b)).toWord

/-- Signed remainder. -/
def smod (a b : Word) : Word :=
  if b = 0 then 0 else ((SignedWord.ofWord a).rem (SignedWord.ofWord b)).toWord

/-- The sum modulo `m`, not wrapped before the reduction. -/
def addMod (a b m : Word) : Word :=
  if m = 0 then 0 else BitVec.ofNat 256 ((a.toNat + b.toNat) % m.toNat)

/-- The product modulo `m`, not wrapped before the reduction. -/
def mulMod (a b m : Word) : Word :=
  if m = 0 then 0 else BitVec.ofNat 256 (a.toNat * b.toNat % m.toNat)

/-- The value of `product * base ^ exponent`, by squaring the base and halving the exponent. -/
def expLoop (product base : Word) (exponent : Nat) : Word :=
  if exponent = 0 then product
  else
    expLoop (if exponent % 2 = 1 then product * base else product) (base * base) (exponent / 2)
termination_by exponent

/-- The power of `a` to `b`; the power to zero is one. -/
def exp (a b : Word) : Word := expLoop 1 a b.toNat

/-- Copies the sign bit of byte `k` of `x`, counted from the least significant byte, over all
higher bits. -/
def signExtend (k x : Word) : Word :=
  if k.toNat < 32 then
    let bit := 8 * k.toNat + 7
    let mask : Word := (1 <<< bit) - 1
    if x.getLsbD bit then x ||| ~~~mask else x &&& mask
  else x

/-- One if the signed value of `a` is below that of `b`. -/
def slt (a b : Word) : Word :=
  ofBool ((SignedWord.ofWord a).order (SignedWord.ofWord b) == .lt)

/-- One if the signed value of `a` is above that of `b`. -/
def sgt (a b : Word) : Word :=
  ofBool ((SignedWord.ofWord a).order (SignedWord.ofWord b) == .gt)

/-- Byte `k` of `x`, counted from the most significant; zero from byte 32 on. -/
def byte (k x : Word) : Word :=
  if k.toNat < 32 then (x >>> (8 * (31 - k.toNat))) &&& 0xff else 0

end ContractMachine.Word
