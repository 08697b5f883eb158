import Registrar.FileSystem.Path
import Registrar.Zip.Reader

/-!
# File trees

* `FileTree` : a file, or a directory with its entries in some order, each with what may be done with it;
* `FileTree.get?`, `FileTree.put` : what stands at a place, given by the names that lead to it;
* `FileTree.walk` : the places of all files, the entries of each directory in ascending order of
  their names. The order in which a directory holds its entries does not show.
-/

namespace Registrar

/-- A file: its bytes, and the archive that they are, if they are one. -/
structure File where
  data : List UInt8
  archive : Option Archive
  deriving DecidableEq, Repr

def File.ofBytes (data : List UInt8) : File := ⟨data, Archive.decode? ⟨data.toArray⟩⟩

def File.ofArchive (archive : Archive) : File := ⟨archive.encode, some archive⟩

/-- What may be done with a file or a directory. To read a directory is to list its entries, to write
it is to make new ones, and to enter it is to get at what is below. -/
structure Access where
  read : Bool
  write : Bool
  enter : Bool
  deriving DecidableEq, Repr

def Access.full : Access := ⟨true, true, true⟩

inductive FileTree where
  | file (access : Access) (content : File)
  | directory (access : Access) (entries : List (String × FileTree))

namespace FileTree

instance : Inhabited FileTree := ⟨.directory .full []⟩

def isDirectory : FileTree → Bool
  | .file _ _ => false
  | .directory _ _ => true

def canEnter : FileTree → Bool
  | .file _ _ => false
  | .directory access _ => access.enter

/-! ## Places -/

/-- What stands at a place, whether or not one can get there. -/
def get? : FileTree → List String → Option FileTree
  | tree, [] => some tree
  | .directory _ entries, name :: place =>
    match entries.lookup name with
    | some tree => tree.get? place
    | none => none
  | .file _ _, _ :: _ => none

/-- Puts a tree under a name among the entries of a directory. -/
def setEntry (name : String) (tree : FileTree) : List (String × FileTree) → List (String × FileTree)
  | [] => [(name, tree)]
  | entry :: entries =>
    if entry.1 = name then (name, tree) :: entries else entry :: setEntry name tree entries

/-- Puts `node` at a place. Directories that are missing on the way are made. -/
def put (node : FileTree) : FileTree → List String → FileTree
  | _, [] => node
  | .directory access entries, name :: place =>
    let below := (entries.lookup name).getD (.directory .full [])
    .directory access (setEntry name (put node below place) entries)
  | tree, _ :: _ => tree

/-! ## Walking -/

/-- The places below some directories and files, in the order given. The place of the first one that
cannot be listed is the error. -/
def gather : List (String × Except (List String) (List (List String))) →
    Except (List String) (List (List String))
  | [] => .ok []
  | (name, .error place) :: _ => .error (name :: place)
  | (name, .ok places) :: rest =>
    match gather rest with
    | .ok others => .ok (places.map (name :: ·) ++ others)
    | .error place => .error place

/-- The entries of a directory, or what they stand for, in ascending order of their names. -/
def sortEntries {α : Type} (entries : List (String × α)) : List (String × α) :=
  entries.mergeSort fun a b => a.1 ≤ b.1

mutual

/-- The places of all files of a tree. The path of an entry has `room` bytes in front of the name. A
directory that cannot be listed is an error, at its place; with `lenient`, only if it is the tree
itself. -/
def walk (lenient : Bool) (room : Nat) : FileTree → Except (List String) (List (List String))
  | .file _ _ => .ok [[]]
  | .directory access entries =>
    if access.read then gather (sortEntries (walkEntries lenient access.enter room entries))
    else .error []

/-- The places of all files of each entry. An entry that nobody can look at, for the directory cannot
be entered or the path is too long, is taken for a file. -/
def walkEntries (lenient canEnter : Bool) (room : Nat) :
    List (String × FileTree) → List (String × Except (List String) (List (List String)))
  | [] => []
  | (name, tree) :: entries =>
    let length := room + name.utf8ByteSize
    let places :=
      if canEnter && length < Path.maxLength then
        match walk lenient (length + 1) tree with
        | .ok places => .ok places
        | .error place => if lenient then .ok [] else .error place
      else .ok [[]]
    (name, places) :: walkEntries lenient canEnter room entries

end

end FileTree

end Registrar
