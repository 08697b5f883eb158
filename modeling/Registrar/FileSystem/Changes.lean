import Registrar.FileSystem.Tree

/-!
# What changed in a file tree

`FileTree.changes` lists what has to be made and written to turn one tree into another that has
everything the first one has.
-/

namespace Registrar

/-- A step from one file tree to another. The names lead to the place. -/
inductive FileChange where
  | makeDirectory (place : List String)
  | writeFile (place : List String) (data : List UInt8)
  deriving DecidableEq, Repr

namespace FileTree

def child? (name : String) : Option FileTree → Option FileTree
  | some (.directory _ entries) => entries.lookup name
  | _ => none

mutual

/-- What has to be made and written at a place where `old` was. Directories come before what is in
them. -/
def changesAt (place : List String) (old : Option FileTree) : FileTree → List FileChange
  | .file _ content =>
    match old with
    | some (.file _ before) =>
      if before.data = content.data then [] else [.writeFile place content.data]
    | _ => [.writeFile place content.data]
  | .directory _ entries =>
    match old with
    | some (.directory _ _) => entryChanges place old entries
    | _ => .makeDirectory place :: entryChanges place old entries

def entryChanges (place : List String) (old : Option FileTree) :
    List (String × FileTree) → List FileChange
  | [] => []
  | (name, tree) :: entries =>
    changesAt (place ++ [name]) (child? name old) tree ++ entryChanges place old entries

end

/-- What has to be made and written to turn a tree into another. -/
def changes (old new : FileTree) : List FileChange := changesAt [] (some old) new

end FileTree

end Registrar
