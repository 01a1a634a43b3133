/-!
# Trees of files

A file holds a text, or something that cannot be read as one. A folder may refuse to list what it
holds. A path is a text of names between slashes. The empty name and the name of one dot stay in the
folder that they follow, and two dots go back to the folder around it.
-/

namespace ContractMachine

inductive FileTree
  | file (text : Option String)
  /-- A folder, whether it can be listed, and its entries in any order. -/
  | folder (readable : Bool) (entries : List (String × FileTree))

namespace FileTree

/-- A folder of nothing. -/
def empty : FileTree := .folder true []

/-- Whether a place is a folder. -/
def isFolder : FileTree → Bool
  | .file _ => false
  | .folder _ _ => true

/-- The entry of a folder with this name. -/
def entry? (name : String) : FileTree → Option FileTree
  | .file _ => none
  | .folder _ entries => entries.lookup name

/-- Walks along names from a place, given the folders around it, the innermost first. -/
def walk? (outer : List FileTree) (place : FileTree) : List String → Option FileTree
  | [] => some place
  | name :: rest =>
    if name = "" ∨ name = "." then
      if place.isFolder then walk? outer place rest else none
    else if name = ".." then
      match outer with
      | parent :: outer => if place.isFolder then walk? outer parent rest else none
      | [] => none
    else
      match place.entry? name with
      | some inner => walk? (place :: outer) inner rest
      | none => none

/-- What a path from this folder leads to. -/
def find? (tree : FileTree) (path : String) : Option FileTree :=
  if path = "" ∨ path.startsWith "/" then none else walk? [] tree (path.splitOn "/")

/-- The tree of a single file below these folders. -/
def single (text : String) : List String → FileTree
  | [] => .file (some text)
  | name :: rest => .folder true [(name, single text rest)]

mutual

/-- Puts a file below these folders, which are made where they are missing. -/
def insert (tree : FileTree) (path : List String) (text : String) : FileTree :=
  match tree, path with
  | _, [] => .file (some text)
  | .file _, path => single text path
  | .folder readable entries, name :: rest =>
    .folder readable (insertEntry entries name rest text)

/-- Puts a file into the entry of a folder with this name. -/
def insertEntry (entries : List (String × FileTree)) (name : String) (path : List String)
    (text : String) : List (String × FileTree) :=
  match entries with
  | [] => [(name, single text path)]
  | (other, tree) :: rest =>
    if other = name then (other, tree.insert path text) :: rest
    else (other, tree) :: insertEntry rest name path text

end

/-- The tree of files with these paths. -/
def ofFiles (files : List (String × String)) : FileTree :=
  files.foldl (fun tree (path, text) => tree.insert (path.splitOn "/") text) empty

end FileTree

end ContractMachine
