import ContractMachine.Text.Blank
import ContractMachine.Text.Hex

/-!
# Tokens of JSON text

The scanner is a machine that takes one character at a time. Outside strings it collects runs of
letters, digits, signs and points, and asks what word each run is once it is over: two words
without a separator between them are no word at all.
-/

namespace ContractMachine.Json

inductive Token
  | openArray
  | closeArray
  | openObject
  | closeObject
  | colon
  | comma
  | null
  | bool (value : Bool)
  /-- A number, with its value if it is written in digits alone. -/
  | number (natural : Option Nat)
  /-- A string, with its text if its escapes spell one. -/
  | string (text : Option String)
  deriving DecidableEq

/-! ## Numbers -/

/-- The digits at the front, of which there has to be one, and what follows them. -/
def digits? (text : List Char) : Option (List Char × List Char) :=
  if (text.takeWhile Char.isDigit).isEmpty then none
  else some (text.takeWhile Char.isDigit, text.dropWhile Char.isDigit)

/-- Digits without a zero in front of others, and what follows them. -/
def integer? (text : List Char) : Option (List Char × List Char) :=
  (digits? text).filter fun (digits, _) => digits.head? != some '0' || digits.length == 1

/-- What follows the fraction, if there is one. -/
def afterFraction? : List Char → Option (List Char)
  | '.' :: rest => (digits? rest).map Prod.snd
  | text => some text

/-- The text without one leading sign, if it has one. -/
def stripSign : List Char → List Char
  | '+' :: rest => rest
  | '-' :: rest => rest
  | text => text

/-- What follows the exponent, if there is one. -/
def afterExponent? : List Char → Option (List Char)
  | 'e' :: rest => (digits? (stripSign rest)).map Prod.snd
  | 'E' :: rest => (digits? (stripSign rest)).map Prod.snd
  | text => some text

/-- The number that decimal digits spell. -/
def decimal (digits : List Char) : Nat :=
  digits.foldl (fun n c => n * 10 + (c.toNat - '0'.toNat)) 0

/-- A number without a sign: its value if it is written in digits alone. -/
def magnitude? (word : List Char) : Option (Option Nat) := do
  let (digits, rest) ← integer? word
  let last ← afterFraction? rest >>= afterExponent?
  if !last.isEmpty then none
  else if rest.isEmpty then some (some (decimal digits))
  else some none

def number? : List Char → Option Token
  | '-' :: rest => (magnitude? rest).map fun _ => .number none
  | word => (magnitude? word).map .number

/-! ## Strings -/

/-- A part of a string: one character, or one sixteen bit code written in an escape. -/
inductive Piece
  | char (c : Char)
  | code (n : Nat)

/-- Codes in this range are halves of a character. -/
def isHalf (n : Nat) : Bool := 0xd800 ≤ n && n < 0xe000

/-- The character of a first and a second half. -/
def joinHalves? (first second : Nat) : Option Char :=
  if first < 0xdc00 ∧ 0xdc00 ≤ second ∧ second < 0xe000 then
    some (Char.ofNat (0x10000 + (first - 0xd800) * 0x400 + (second - 0xdc00)))
  else none

/-- The text that pieces spell after `before`, which stands reversed. Halves have to come in
pairs. -/
def spell? (before : List Char) : List Piece → Option String
  | [] => some (String.ofList before.reverse)
  | .char c :: rest => spell? (c :: before) rest
  | .code first :: rest =>
    if isHalf first then
      match rest with
      | .code second :: rest =>
        match joinHalves? first second with
        | some c => spell? (c :: before) rest
        | none => none
      | _ => none
    else spell? (Char.ofNat first :: before) rest

/-- The character that an escape of one letter stands for. -/
def escaped? (c : Char) : Option Char :=
  match c with
  | '"' | '\\' | '/' => some c
  | 'b' => some (Char.ofNat 0x08)
  | 'f' => some (Char.ofNat 0x0c)
  | 'n' => some (Char.ofNat 0x0a)
  | 'r' => some (Char.ofNat 0x0d)
  | 't' => some (Char.ofNat 0x09)
  | _ => none

/-! ## The scanner -/

/-- Where the scanner stands. What it is collecting stands reversed. -/
inductive Scanning
  | between
  | word (letters : List Char)
  | quoted (pieces : List Piece)
  /-- After a backslash. -/
  | escape (pieces : List Piece)
  /-- Inside the four digits of a code, with the value and the number of those read. -/
  | code (pieces : List Piece) (value count : Nat)

/-- The scanner with the tokens it has read, the last one first. -/
structure Scanner where
  standing : Scanning
  tokens : List Token

namespace Scanner

def start : Scanner := ⟨.between, []⟩

def isWordChar (c : Char) : Bool := c.isAlphanum || c == '+' || c == '-' || c == '.'

def punctuation? (c : Char) : Option Token :=
  match c with
  | '[' => some .openArray
  | ']' => some .closeArray
  | '{' => some .openObject
  | '}' => some .closeObject
  | ':' => some .colon
  | ',' => some .comma
  | _ => none

/-- The token of a run of word characters. -/
def word? (letters : List Char) : Option Token :=
  if letters = ['n', 'u', 'l', 'l'] then some .null
  else if letters = ['t', 'r', 'u', 'e'] then some (.bool true)
  else if letters = ['f', 'a', 'l', 's', 'e'] then some (.bool false)
  else number? letters

/-- A character outside words and strings. -/
def separate (tokens : List Token) (c : Char) : Option Scanner :=
  if Text.isBlank c then some ⟨.between, tokens⟩
  else if c = '"' then some ⟨.quoted [], tokens⟩
  else if isWordChar c then some ⟨.word [c], tokens⟩
  else (punctuation? c).map fun token => ⟨.between, token :: tokens⟩

def step (s : Scanner) (c : Char) : Option Scanner :=
  match s.standing with
  | .between => separate s.tokens c
  | .word letters =>
    if isWordChar c then some { s with standing := .word (c :: letters) }
    else (word? letters.reverse).bind fun token => separate (token :: s.tokens) c
  | .quoted pieces =>
    if c = '"' then some ⟨.between, .string (spell? [] pieces.reverse) :: s.tokens⟩
    else if c = '\\' then some { s with standing := .escape pieces }
    else if c.toNat < 0x20 then none
    else some { s with standing := .quoted (.char c :: pieces) }
  | .escape pieces =>
    if c = 'u' then some { s with standing := .code pieces 0 0 }
    else (escaped? c).map fun c => { s with standing := .quoted (.char c :: pieces) }
  | .code pieces value count =>
    (Hex.digit? c).map fun digit =>
      let value := value * 16 + digit
      if count = 3 then { s with standing := .quoted (.code value :: pieces) }
      else { s with standing := .code pieces value (count + 1) }

/-- All tokens, in order, unless the text ends inside a string. -/
def finish (s : Scanner) : Option (List Token) :=
  match s.standing with
  | .between => some s.tokens.reverse
  | .word letters => (word? letters.reverse).map fun token => (token :: s.tokens).reverse
  | _ => none

end Scanner

/-- The tokens of a text. -/
def tokens? (text : String) : Option (List Token) :=
  (text.toList.foldlM Scanner.step Scanner.start).bind Scanner.finish

end ContractMachine.Json
