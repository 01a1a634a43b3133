import ContractMachine.Word

/-!
# Signed words

The two's complement reading of a word, kept as a sign and a magnitude. Division truncates toward
zero and the remainder has the sign of the dividend.
-/

namespace ContractMachine

/-- The sign of a signed word. -/
inductive Sign
  | plus
  | minus
  | zero
  deriving DecidableEq

/-- A sign and a magnitude. Every value is allowed; `SignedWord.ofWord` gives the regular ones. -/
structure SignedWord where
  sign : Sign
  magnitude : Word
  deriving DecidableEq

namespace SignedWord

/-- Zero, the only regular value of sign `zero`. -/
def zero : SignedWord := ⟨.zero, 0⟩

/-- The least value, `-2 ^ 255`. -/
def least : SignedWord := ⟨.minus, BitVec.intMin 256⟩

/-- All bits but the sign bit. -/
def lowBits : Word := BitVec.intMax 256

/-- The two's complement reading. -/
def ofWord (w : Word) : SignedWord :=
  if w = 0 then zero
  else if w &&& lowBits = w then ⟨.plus, w⟩
  else ⟨.minus, ~~~w + 1⟩

/-- The two's complement encoding. -/
def toWord (x : SignedWord) : Word :=
  match x.sign with
  | .zero => 0
  | .plus => x.magnitude
  | .minus => ~~~x.magnitude + 1

/-- The order of the signed values. -/
def order (x y : SignedWord) : Ordering :=
  match x.sign, y.sign with
  | .zero, .zero => .eq
  | .zero, .plus | .minus, .plus | .minus, .zero => .lt
  | .plus, .zero | .plus, .minus | .zero, .minus => .gt
  | .minus, .minus => compare y.magnitude x.magnitude
  | .plus, .plus => compare x.magnitude y.magnitude

/-- The sign of a non-zero quotient. A sign of `zero` counts as `plus`, except below `minus`. -/
def quotientSign : Sign → Sign → Sign
  | .zero, .minus | .plus, .minus | .minus, .zero | .minus, .plus => .minus
  | .zero, .plus | .plus, .zero | .zero, .zero | .plus, .plus | .minus, .minus => .plus

/-- Division toward zero. Division by zero is zero, and the least value divided by minus one is
the least value again. -/
def div (x y : SignedWord) : SignedWord :=
  if y = zero then zero
  else if x = least ∧ y = ⟨.minus, 1⟩ then least
  else
    let quotient := x.magnitude / y.magnitude &&& lowBits
    if quotient = 0 then zero else ⟨quotientSign x.sign y.sign, quotient⟩

/-- The remainder of `div`, with the sign of the dividend; zero for a divisor of magnitude zero. -/
def rem (x y : SignedWord) : SignedWord :=
  if y.magnitude = 0 then zero
  else
    let remainder := x.magnitude % y.magnitude &&& lowBits
    if remainder = 0 then zero else ⟨x.sign, remainder⟩

end SignedWord

end ContractMachine
