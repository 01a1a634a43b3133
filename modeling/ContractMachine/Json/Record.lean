import ContractMachine.Json
import ContractMachine.Quantity
import Std.Data.ExtTreeMap

/-!
# Typed reading of JSON

A record has a fixed list of field names. It is written as an object, in which other names are
passed over, or as an array of its fields in their order, of which the last ones may be missing.
A map is written as an object, and of entries with one key the last one counts.
-/

namespace ContractMachine.Json

/-- The fields given for a record. -/
abbrev Record := List (String × Json)

/-- The fields whose names are known, provided that all names have a text. -/
def known? (names : List String) : List (Option String × Json) → Option Record
  | [] => some []
  | (none, _) :: _ => none
  | (some name, value) :: rest =>
    (known? names rest).map fun fields => if name ∈ names then (name, value) :: fields else fields

/-- The fields of a record with these names. A known name may not be given twice. -/
def record? (names : List String) : Json → Option Record
  | .object fields =>
    (known? names fields).filter fun fields => decide (fields.map Prod.fst).Nodup
  | .array items => if items.length ≤ names.length then some (names.zip items) else none
  | _ => none

namespace Record

/-- The value of a field that has to be given. -/
def required {α : Type} (r : Record) (name : String) (read : Json → Option α) : Option α :=
  (r.lookup name).bind read

/-- The value of a field, or `default` if it is not given. -/
def getD {α : Type} (r : Record) (name : String) (read : Json → Option α) (default : α) :
    Option α :=
  match r.lookup name with
  | some value => read value
  | none => some default

end Record

/-- A value that may also be null. -/
def nullable {α : Type} (read : Json → Option α) : Json → Option (Option α)
  | .null => some none
  | value => (read value).map some

def text? : Json → Option String
  | .string text => text
  | _ => none

def flag? : Json → Option Bool
  | .bool value => some value
  | _ => none

/-- A quantity in digits. -/
def quantity? : Json → Option Nat
  | .number (some n) => if n < Quantity.limit then some n else none
  | _ => none

def list? {α : Type} (read : Json → Option α) : Json → Option (List α)
  | .array items => items.mapM read
  | _ => none

/-- Adds the entries of a map to `entries`. -/
def insertAll? {κ α : Type} [Ord κ] [Std.TransOrd κ] (key : String → Option κ)
    (read : Json → Option α) (entries : Std.ExtTreeMap κ α) :
    List (Option String × Json) → Option (Std.ExtTreeMap κ α)
  | [] => some entries
  | (none, _) :: _ => none
  | (some name, value) :: rest =>
    match key name, read value with
    | some k, some a => insertAll? key read (entries.insert k a) rest
    | _, _ => none

def map? {κ α : Type} [Ord κ] [Std.TransOrd κ] (key : String → Option κ)
    (read : Json → Option α) : Json → Option (Std.ExtTreeMap κ α)
  | .object fields => insertAll? key read ∅ fields
  | _ => none

end ContractMachine.Json
