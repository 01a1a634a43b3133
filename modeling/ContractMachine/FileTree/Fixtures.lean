import ContractMachine.FileTree
import ContractMachine.Fixture

/-!
# Finding fixtures

A file is always looked at, whatever its name. In a folder, the fixtures are the files at any
depth whose extension is `json`. They are gathered folder by folder, and sorted in each folder by
their names from that folder inwards. If one of the folders cannot be listed, nothing is found.
-/

namespace ContractMachine

/-- A file found below a place. -/
structure FoundFile where
  /-- The names that lead to it from there. -/
  names : List String
  text : Option String
  deriving DecidableEq

namespace FoundFile

/-- The file seen from one folder further out. -/
def within (name : String) (f : FoundFile) : FoundFile := { f with names := name :: f.names }

/-- The order of paths: the first names that differ decide, and a path comes before its
continuations. -/
def namesLE : List String → List String → Bool
  | [], _ => true
  | _ :: _, [] => false
  | a :: as, b :: bs => if a = b then namesLE as bs else decide (a < b)

/-- The files in the order of their paths. -/
def sorted (files : List FoundFile) : List FoundFile :=
  files.mergeSort fun a b => namesLE a.names b.names

/-- Appends a name to the path of a folder. -/
def join (folder name : String) : String :=
  if folder.endsWith "/" then folder ++ name else folder ++ "/" ++ name

/-- The path of the file, given the path of the place. -/
def path (f : FoundFile) (place : String) : String := f.names.foldl join place

/-- A path without the steps in front that stay where they are. -/
def dropStays : List Char → List Char
  | '/' :: rest => dropStays rest
  | '.' :: '/' :: rest => dropStays rest
  | path => path

/-- The path of the file as seen from the folder that the path of the place starts in. -/
def pathBelow (f : FoundFile) (place : String) : String :=
  String.ofList (dropStays (f.path place).toList)

/-- The tests of the file and their verdicts, if it is a fixture. -/
def verdicts? (f : FoundFile) : Option (List (String × Verdict)) :=
  (f.text.bind Fixture.ofText?).map Fixture.verdicts

end FoundFile

namespace FileTree

/-- Whether the part of a name after its last dot is `json`. A dot in front begins no extension. -/
def hasFixtureName (name : String) : Bool :=
  name.endsWith ".json" && name != ".json"

mutual

/-- The fixtures in the entry of a folder, if all folders in it can be listed. -/
def fixturesAt? (name : String) : FileTree → Option (List FoundFile)
  | .file text => some (if hasFixtureName name then [⟨[name], text⟩] else [])
  | .folder false _ => none
  | .folder true entries => (fixturesIn? entries).map fun files =>
      (FoundFile.sorted files).map (FoundFile.within name)

/-- The fixtures in all these entries. -/
def fixturesIn? : List (String × FileTree) → Option (List FoundFile)
  | [] => some []
  | (name, tree) :: rest => do
    let files ← fixturesAt? name tree
    let later ← fixturesIn? rest
    return files ++ later

end

/-- The files to look at in a place, in order. -/
def fixtures? : FileTree → Option (List FoundFile)
  | .file text => some [⟨[], text⟩]
  | .folder false _ => none
  | .folder true entries => (fixturesIn? entries).map FoundFile.sorted

end FileTree

end ContractMachine
