import ContractMachine.CommandLine

/-!
# The program

Loads what the paths lead to, runs the command line on it, and prints what that leaves behind.
-/

namespace ContractMachine

/-- The text of a file, if it can be read as one. -/
def readText (path : String) : IO (Option String) := do
  try
    return some (← IO.FS.readFile path)
  catch _ =>
    return none

/-- The names in a folder, if it can be listed. -/
def listNames (path : String) : IO (Option (List String)) := do
  try
    let place ← IO.FS.realPath path
    return some ((← place.readDir).toList.map fun entry => entry.fileName)
  catch _ =>
    return none

mutual

/-- Loads what a path leads to. A file is read only if it is `wanted`. -/
partial def load (path : String) (wanted : Bool) : IO FileTree := do
  let place ← IO.FS.realPath path
  if ← place.isDir then
    match ← listNames path with
    | some names => return .folder true (← names.mapM fun name => loadEntry path name)
    | none => return .folder false []
  else if wanted then
    return .file (← readText path)
  else
    return .file none

/-- Loads an entry of a folder. One that leads nowhere cannot be read. -/
partial def loadEntry (folder name : String) : IO (String × FileTree) := do
  try
    return (name, ← load (FoundFile.join folder name) (FileTree.hasFixtureName name))
  catch _ =>
    return (name, .file none)

end

/-- What a path leads to, if there is anything. -/
def look (path : String) : IO (Option FileTree) := do
  try
    return some (← load path true)
  catch _ =>
    return none

end ContractMachine

open ContractMachine in
def main (arguments : List String) : IO UInt32 := do
  let paths := match Invocation.parse? arguments with
    | some invocation => invocation.paths
    | none => []
  let places ← paths.mapM fun path => return (path, ← look path)
  let outcome := execute (fun path => (places.lookup path).join) arguments
  match outcome.lines with
  | some lines => lines.forM fun line => IO.println line
  | none => IO.eprintln "usage: [-v] [-f] state PATH..."
  match outcome.error with
  | some error => IO.eprintln ("Error: " ++ error.text)
  | none => pure ()
  return UInt32.ofNat outcome.status
