import ContractMachine.Json.Token

/-!
# JSON values

A value keeps what a typed reader of it could ask for. Numbers have a value only if they are
written in digits alone, and strings have a text only if their escapes spell one: anything else is
well-formed and may be skipped, but not read. Containers may be nested to any depth, so the reader
keeps those that are open in a list of its own.
-/

namespace ContractMachine

inductive Json
  | null
  | bool (value : Bool)
  | number (natural : Option Nat)
  | string (text : Option String)
  | array (items : List Json)
  /-- Fields in the order written, repeated names included. -/
  | object (fields : List (Option String × Json))

namespace Json

/-- A container whose end has not come. Its members stand reversed. -/
inductive Container
  | array (items : List Json)
  | object (fields : List (Option String × Json))
  /-- An object that waits for the value of its latest name. -/
  | member (fields : List (Option String × Json)) (name : Option String)

/-- What the next token has to be. -/
inductive Awaiting
  | value
  /-- A value or the end of the array. -/
  | firstItem
  /-- A name or the end of the object. -/
  | firstName
  | name
  | colon
  /-- A comma or the end of the innermost container. -/
  | separator
  /-- Nothing: the value is complete. -/
  | nothing (value : Json)

/-- The reader between two tokens, with its open containers, the innermost first. -/
structure Builder where
  awaiting : Awaiting
  containers : List Container

namespace Builder

def start : Builder := ⟨.value, []⟩

/-- Gives a finished value to the innermost container. -/
def accept (value : Json) : List Container → Option Builder
  | [] => some ⟨.nothing value, []⟩
  | .array items :: outer => some ⟨.separator, .array (value :: items) :: outer⟩
  | .member fields name :: outer => some ⟨.separator, .object ((name, value) :: fields) :: outer⟩
  | .object _ :: _ => none

/-- A token that begins a value. -/
def begin (containers : List Container) : Token → Option Builder
  | .null => accept .null containers
  | .bool value => accept (.bool value) containers
  | .number natural => accept (.number natural) containers
  | .string text => accept (.string text) containers
  | .openArray => some ⟨.firstItem, .array [] :: containers⟩
  | .openObject => some ⟨.firstName, .object [] :: containers⟩
  | _ => none

/-- A token that names the next field. -/
def nameField (containers : List Container) : Token → Option Builder
  | .string name =>
    match containers with
    | .object fields :: outer => some ⟨.colon, .member fields name :: outer⟩
    | _ => none
  | _ => none

/-- A token that ends the innermost container. -/
def close (containers : List Container) : Token → Option Builder
  | .closeArray =>
    match containers with
    | .array items :: outer => accept (.array items.reverse) outer
    | _ => none
  | .closeObject =>
    match containers with
    | .object fields :: outer => accept (.object fields.reverse) outer
    | _ => none
  | _ => none

/-- A comma inside the innermost container. -/
def afterComma (containers : List Container) : Option Builder :=
  match containers with
  | .array _ :: _ => some ⟨.value, containers⟩
  | .object _ :: _ => some ⟨.name, containers⟩
  | _ => none

def step (b : Builder) (token : Token) : Option Builder :=
  match b.awaiting with
  | .value => begin b.containers token
  | .firstItem =>
    if token = .closeArray then close b.containers token else begin b.containers token
  | .firstName =>
    if token = .closeObject then close b.containers token else nameField b.containers token
  | .name => nameField b.containers token
  | .colon => if token = .colon then some ⟨.value, b.containers⟩ else none
  | .separator =>
    if token = .comma then afterComma b.containers else close b.containers token
  | .nothing _ => none

/-- The value, if it is complete. -/
def finish (b : Builder) : Option Json :=
  match b.awaiting with
  | .nothing value => some value
  | _ => none

end Builder

def ofTokens? (tokens : List Token) : Option Json :=
  (tokens.foldlM Builder.step Builder.start).bind Builder.finish

/-- The value that a text spells. -/
def ofText? (text : String) : Option Json := (tokens? text).bind ofTokens?

end Json

end ContractMachine
