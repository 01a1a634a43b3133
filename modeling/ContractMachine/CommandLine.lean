import ContractMachine.Report

/-!
# The command line

`[-v] [-f] state PATH...` runs the fixtures at the paths. With `-f` only failed tests are printed.
-/

namespace ContractMachine

/-- What the arguments ask for. -/
structure Invocation where
  failedOnly : Bool
  paths : List String
  deriving DecidableEq

namespace Invocation

/-- The paths after the subcommand. An argument that begins with a dash is an option, and there
are none here; one dash alone is a path, and two dashes make paths of all that follow. -/
def paths? : List String → Option (List String)
  | [] => some []
  | argument :: rest =>
    if argument = "--" then if "" ∈ rest then none else some rest
    else if argument = "" ∨ (argument.startsWith "-" ∧ argument ≠ "-") then none
    else (paths? rest).map (argument :: ·)

/-- The letters of an argument of short options. The letter `f` may come once in all. -/
def letters? (failedOnly : Bool) : List Char → Option Bool
  | [] => some failedOnly
  | 'v' :: rest => letters? failedOnly rest
  | 'f' :: rest => if failedOnly then none else letters? true rest
  | _ => none

/-- The short options of one argument. -/
def options? (failedOnly : Bool) : List Char → Option Bool
  | '-' :: letter :: rest => letters? failedOnly (letter :: rest)
  | _ => none

/-- Reads the arguments after some options. -/
def parseAfter? (failedOnly : Bool) : List String → Option Invocation
  | [] => none
  | argument :: rest =>
    if argument = "state" then
      match paths? rest with
      | some (path :: paths) => some ⟨failedOnly, path :: paths⟩
      | _ => none
    else if argument = "--verbose" then parseAfter? failedOnly rest
    else
      match options? failedOnly argument.toList with
      | some failedOnly => parseAfter? failedOnly rest
      | none => none

/-- Reads the arguments of the program. -/
def parse? (arguments : List String) : Option Invocation := parseAfter? false arguments

end Invocation

/-- What a run of the program leaves behind. -/
structure Outcome where
  status : Nat
  /-- The lines of the standard output, if the arguments make sense. -/
  lines : Option (List String)
  error : Option RunError

namespace Outcome

/-- A run that stopped after these lines. -/
def stopped (lines : List String) (error : RunError) : Outcome := ⟨1, some lines, some error⟩

/-- A run through all files. The counts come after the records. -/
def finished (report : Report) : Outcome :=
  let lines := report.lines ++ [report.summary]
  if 0 < report.failed then stopped lines (.failures report.failed) else ⟨0, some lines, none⟩

end Outcome

/-- Runs what the arguments ask for. All paths are looked at before any test is run. -/
def Invocation.run (find? : String → Option FileTree) (invocation : Invocation) : Outcome :=
  match placesAt find? invocation.paths with
  | .error error => .stopped [] error
  | .ok places =>
    match Report.runPlaces invocation.failedOnly places .empty with
    | (some error, report) => .stopped report.lines error
    | (none, report) => .finished report

/-- Runs the program with these arguments, where `find?` tells what a path leads to. -/
def execute (find? : String → Option FileTree) (arguments : List String) : Outcome :=
  match Invocation.parse? arguments with
  | none => ⟨2, none, none⟩
  | some invocation => invocation.run find?

end ContractMachine
