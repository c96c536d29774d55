/-!
Directories: files with their texts, each at a path of names. A directory exists as long as a file
lies in it.
-/
namespace BoundedGo

structure Directory where
  files : List (List String × String)
  deriving DecidableEq, Repr

namespace Directory

/-- Whether a path leads to a directory. The empty path leads to the directory itself. -/
def isFolder (d : Directory) (path : List String) : Bool :=
  path.isEmpty || d.files.any (fun f => path.isPrefixOf f.1 && path.length < f.1.length)

/-- Whether a file can have this name. -/
def isName (name : String) : Bool :=
  name ≠ "" && name ≠ "." && name ≠ ".." && name.utf8ByteSize ≤ 255
    && !name.toList.contains '\x00'

/-- Follows the parts of a path from a folder to a file that is there or could be. -/
def follow (d : Directory) (folder : List String) : List String → Option (List String)
  | [] => none
  | [name] => if isName name then some (folder ++ [name]) else none
  | name :: path =>
    if name = "" ∨ name = "." then d.follow folder path
    else if name = ".." then
      if folder.isEmpty then none else d.follow folder.dropLast path
    else if d.isFolder (folder ++ [name]) then d.follow (folder ++ [name]) path
    else none

/-- The place of a file. Paths from the root and paths that leave the directory have none. -/
def locate (d : Directory) (path : String) : Option (List String) :=
  if path.toList.head? = some '/' then none else d.follow [] (path.splitOn "/")

def read? (d : Directory) (path : String) : Option String := do
  d.files.lookup (← d.locate path)

/-- Gives a place its text. -/
def replace (place : List String) (text : String) :
    List (List String × String) → List (List String × String)
  | [] => [(place, text)]
  | f :: files => if f.1 = place then (place, text) :: files else f :: replace place text files

/-- Writes a file, in the place of the one that was there. -/
def write? (d : Directory) (path text : String) : Option Directory := do
  let place ← d.locate path
  if d.isFolder place then none else some ⟨replace place text d.files⟩

/-- The files of a directory that another one does not have with the same text. -/
def changesFrom (d before : Directory) : List (List String × String) :=
  d.files.filter (fun f => before.files.lookup f.1 ≠ some f.2)

/-- A path as it is written. -/
def pathText (path : List String) : String := "/".intercalate path

end Directory

end BoundedGo
