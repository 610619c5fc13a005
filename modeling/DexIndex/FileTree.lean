import DexIndex.Bytes.Word
import DexIndex.IoFault

/-!
# File trees

The files of a machine and how a path finds its way to one of them. A path is walked name by name:
each name is looked up in the directory reached so far, so that the first name that leads nowhere
decides what is wrong with the path.
-/

namespace DexIndex

inductive FileTree
  | file (content : Bytes)
  | directory (entries : List (Bytes × FileTree))

namespace FileTree

/-- The names of a path: the pieces between slashes. -/
def names (path : Bytes) : List Bytes := path.splitOn 0x2f

/-- The longest name, in bytes. -/
def maxName : Nat := 255

/-- The longest path, with the byte that ends it. -/
def maxPath : Nat := 4096

/-- Walks on from `here`, below the directories `above`. An empty name and a single dot stay in a
directory; two dots go up, but not beyond the root. -/
def walk (above : List FileTree) (here : FileTree) : List Bytes → Except IoFault FileTree
  | [] => .ok here
  | name :: rest =>
    match here with
    | file _ => .error .notDirectory
    | directory entries =>
      if name = [] ∨ name = [0x2e] then walk above here rest
      else if name = [0x2e, 0x2e] then
        match above with
        | [] => walk [] here rest
        | up :: above => walk above up rest
      else if maxName < name.length then .error .nameTooLong
      else
        match entries.lookup name with
        | none => .error .noSuchFile
        | some next => walk (here :: above) next rest

/-- What a path names, seen from the working directory. -/
def find (root : FileTree) (working path : Bytes) : Except IoFault FileTree :=
  if path.isEmpty then .error .noSuchFile
  else if maxPath ≤ path.length then .error .nameTooLong
  else if path.head? = some 0x2f then walk [] root (names path)
  else walk [] root (names working ++ names path)

/-- Opens what a path names. A directory can be opened but not read. -/
def openFile (root : FileTree) (working path : Bytes) :
    Except IoFault (Except IoFault Bytes) :=
  (find root working path).map fun
    | file content => .ok content
    | directory _ => .error .isDirectory

end FileTree

end DexIndex
