import Registrar.FileSystem.Path
import Registrar.FileSystem.Tree

/-!
# File systems

A file tree and the directory in it from which relative paths start. Reading gives a value or a
fault; writing runs in `FileSystem.Action`, which keeps what was done before a fault. There are no
links: what stands at two places are two things.
-/

namespace Registrar

inductive FileFault where
  | missing
  | denied
  | exists
  | notDirectory
  | isDirectory
  | nameTooLong
  | nulCharacter
  | notText
  deriving DecidableEq, Repr

def FileFault.message : FileFault → String
  | .missing => "No such file or directory (os error 2)"
  | .denied => "Permission denied (os error 13)"
  | .exists => "File exists (os error 17)"
  | .notDirectory => "Not a directory (os error 20)"
  | .isDirectory => "Is a directory (os error 21)"
  | .nameTooLong => "File name too long (os error 36)"
  | .nulCharacter => "file name contained an unexpected NUL byte"
  | .notText => "stream did not contain valid UTF-8"

structure FileSystem where
  root : FileTree
  workingDirectory : List String

namespace FileSystem

/-! ## Finding -/

def check (path : String) : Except FileFault Unit :=
  if path.toList.contains '\x00' then .error .nulCharacter
  else if path.isEmpty then .error .missing
  else if Path.maxLength ≤ path.utf8ByteSize then .error .nameTooLong
  else .ok ()

def start (fs : FileSystem) (path : String) : List String :=
  if Path.isAbsolute path then [] else fs.workingDirectory

/-- Follows steps from the directory at `place`. Gives the place they lead to and what stands
there. -/
def follow (root : FileTree) (place : List String) : List String →
    Except FileFault (List String × FileTree)
  | [] =>
    match root.get? place with
    | some tree => .ok (place, tree)
    | none => .error .missing
  | step :: steps =>
    match root.get? place with
    | none => .error .missing
    | some tree =>
      if !tree.isDirectory then .error .notDirectory
      else if !tree.canEnter then .error .denied
      else if step = ".." then follow root place.dropLast steps
      else if Path.maxNameLength < step.utf8ByteSize then .error .nameTooLong
      else follow root (place ++ [step]) steps

def find (fs : FileSystem) (path : String) : Except FileFault (List String × FileTree) := do
  check path
  let found ← follow fs.root (fs.start path) (Path.steps path)
  if Path.namesDirectory path && !found.2.isDirectory then throw .notDirectory
  if Path.endsInside path && !found.2.canEnter then throw .denied
  return found

def exists? (fs : FileSystem) (path : String) : Bool :=
  match fs.find path with
  | .ok _ => true
  | .error _ => false

def isDirectory (fs : FileSystem) (path : String) : Bool :=
  match fs.find path with
  | .ok (_, tree) => tree.isDirectory
  | .error _ => false

def isFile (fs : FileSystem) (path : String) : Bool :=
  match fs.find path with
  | .ok (_, tree) => !tree.isDirectory
  | .error _ => false

/-! ## Reading -/

def file (fs : FileSystem) (path : String) : Except FileFault File :=
  match fs.find path with
  | .ok (_, .file access content) => if access.read then .ok content else .error .denied
  | .ok (_, .directory access _) => .error (if access.read then .isDirectory else .denied)
  | .error fault => .error fault

def read (fs : FileSystem) (path : String) : Except FileFault (List UInt8) :=
  (fs.file path).map (·.data)

/-! ## Writing -/

/-- A computation that may change a file system. The file system after a fault holds what was
changed before it. -/
abbrev Action (ε : Type) := EStateM ε FileSystem

/-- Makes the directories that are missing on the steps from the directory at `place`. -/
def makeAlong (place : List String) : List String → Action FileFault Unit
  | [] => pure ()
  | step :: steps => fun fs =>
    match fs.root.get? place with
    | none => .error .missing fs
    | some (.file _ _) => .error .notDirectory fs
    | some (.directory access _) =>
      if !access.enter then .error .denied fs
      else if step = ".." then makeAlong place.dropLast steps fs
      else
        let next := place ++ [step]
        match fs.root.get? next with
        | some tree =>
          if tree.isDirectory then makeAlong next steps fs
          else .error (if steps.isEmpty then .exists else .notDirectory) fs
        | none =>
          if Path.maxNameLength < step.utf8ByteSize then .error .nameTooLong fs
          else if !access.write then .error .denied fs
          else makeAlong next steps { fs with root := FileTree.put (.directory .full []) fs.root next }

/-- Makes the directory of a path and those above it, as far as they are missing. -/
def makeDirectories (path : String) : Action FileFault Unit := fun fs =>
  if path.isEmpty then .ok () fs
  else
    match check path with
    | .error fault => .error fault fs
    | .ok () => makeAlong (fs.start path) (Path.steps path) fs

/-- The place at which a file with a path can be written, and what may be done with the file. A new
file is open to everything, one that was there keeps its restrictions. -/
def writable (fs : FileSystem) (path : String) : Except FileFault (List String × Access) := do
  check path
  match (Path.steps path).reverse with
  | [] => throw .isDirectory
  | name :: above =>
    let (place, tree) ← follow fs.root (fs.start path) above.reverse
    match tree with
    | .file _ _ => throw .notDirectory
    | .directory access _ =>
      if !access.enter then throw .denied
      if Path.namesDirectory path then throw .isDirectory
      if Path.maxNameLength < name.utf8ByteSize then throw .nameTooLong
      match tree.get? [name] with
      | some (.directory _ _) => throw .isDirectory
      | some (.file old _) => if old.write then return (place ++ [name], old) else throw .denied
      | none => if access.write then return (place ++ [name], .full) else throw .denied

/-- Writes a file, in place of the one that has the path. -/
def write (path : String) (content : File) : Action FileFault Unit := fun fs =>
  match fs.writable path with
  | .ok (place, access) =>
    .ok () { fs with root := FileTree.put (.file access content) fs.root place }
  | .error fault => .error fault fs

/-- The file system in which a file has another content; as it is if there is no such file. -/
def rewritten (fs : FileSystem) (path : String) (content : File) : FileSystem :=
  match write path content fs with
  | .ok () fs => fs
  | .error _ fs => fs

end FileSystem

end Registrar
