import ContractMachine.FileTree.Fixtures

/-!
# Reports

A run looks at every file of every place, place after place, and judges the tests of each file in
the order of their names. It counts each test when it has been judged, and prints a record of it.
Only failed tests are printed if that is asked for; all are counted. The run stops at the first file
that is no fixture, and at a place with a folder that cannot be listed.
-/

namespace ContractMachine

/-- The verdict on one test of a file. -/
structure TestRecord where
  path : String
  name : String
  verdict : Verdict

namespace TestRecord

def passed (r : TestRecord) : Bool :=
  match r.verdict with
  | .ok _ => true
  | .error _ => false

def text (r : TestRecord) : String :=
  match r.verdict with
  | .ok _ => "PASS " ++ r.path ++ "::" ++ r.name
  | .error mismatch => "FAIL " ++ r.path ++ "::" ++ r.name ++ ": " ++ mismatch.text

end TestRecord

/-- What keeps a run from succeeding. -/
inductive RunError
  | notFound (path : String)
  | unreadable (path : String)
  /-- A folder at this path or inside it cannot be listed. -/
  | unlistable (path : String)
  | failures (count : Nat)
  deriving DecidableEq

def RunError.text : RunError → String
  | notFound path => "source tests not found for: " ++ path
  | unreadable path => "not a fixture: " ++ path
  | unlistable path => "cannot be listed: " ++ path
  | failures count => toString count ++ " state tests failed"

/-- How far a run has come. -/
structure Report where
  /-- The number of tests that have passed. -/
  passed : Nat
  /-- The number of tests that have failed. -/
  failed : Nat
  /-- The records that are printed. -/
  printed : Array TestRecord

namespace Report

def empty : Report := ⟨0, 0, #[]⟩

/-- Counts a test. A passed one is not printed if only failed ones are. -/
def note (failedOnly : Bool) (r : Report) (record : TestRecord) : Report :=
  match record.verdict with
  | .ok _ => ⟨r.passed + 1, r.failed, if failedOnly then r.printed else r.printed.push record⟩
  | .error _ => ⟨r.passed, r.failed + 1, r.printed.push record⟩

/-- Goes through the verdicts on the tests of a file. -/
def noteTests (failedOnly : Bool) (path : String) : List (String × Verdict) → Report → Report
  | [], r => r
  | (name, verdict) :: rest, r =>
    noteTests failedOnly path rest (r.note failedOnly ⟨path, name, verdict⟩)

/-- Goes through the files of a place. -/
def runFiles (failedOnly : Bool) (place : String) :
    List FoundFile → Report → Option RunError × Report
  | [], r => (none, r)
  | file :: rest, r =>
    match file.verdicts? with
    | none => (some (.unreadable (file.path place)), r)
    | some verdicts =>
      runFiles failedOnly place rest (noteTests failedOnly (file.path place) verdicts r)

/-- Goes through places, each with its path. -/
def runPlaces (failedOnly : Bool) :
    List (String × FileTree) → Report → Option RunError × Report
  | [], r => (none, r)
  | (path, tree) :: rest, r =>
    match tree.fixtures? with
    | none => (some (.unlistable path), r)
    | some files =>
      match runFiles failedOnly path files r with
      | (none, r) => runPlaces failedOnly rest r
      | (some error, r) => (some error, r)

/-- The line with the counts. -/
def summary (r : Report) : String :=
  toString r.passed ++ " passed, " ++ toString r.failed ++ " failed"

/-- The lines of the records that are printed. -/
def lines (r : Report) : List String := r.printed.toList.map TestRecord.text

end Report

/-- The places at these paths, or the first path that leads nowhere. -/
def placesAt (find? : String → Option FileTree) :
    List String → Except RunError (List (String × FileTree))
  | [] => .ok []
  | path :: rest =>
    match find? path with
    | none => .error (.notFound path)
    | some tree => do
      let places ← placesAt find? rest
      return (path, tree) :: places

end ContractMachine
