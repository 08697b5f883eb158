import Registrar.Inputs
import Registrar.Zip.Reader
import Std.Data.HashSet

/-!
# Assembly

`assemble` merges all inputs into one archive. The first entry with a name wins; entries that were
changed are taken from their copies. The archive is begun before the inputs are read, and every entry
is written before the next one is read. So whoever reads the file of the archive meanwhile finds a
part of it, and after a failure it holds the entries so far.
-/

namespace Registrar

structure AssemblyReport where
  output : String
  entryCount : Nat
  substituted : List String
  /-- The entries that were dropped because an earlier one has the name. -/
  duplicates : List String
  deriving DecidableEq, Repr

/-! ## The file of an archive that is not complete -/

/-- The file of an archive that is being written, as it appears to a reader who opened it when the
archive had the entries `opened`, and who reads when it has the entries `now`. What is on the disk by
then is the business of the one who writes archives. -/
abbrev Unfinished := (opened now : Archive) → File

/-- The entries one after the other, without the directory at the end. They may well end with an
entry that is an archive itself, and be taken for that one. -/
def Unfinished.stored : Unfinished := fun opened now =>
  let bytes (archive : Archive) : ByteArray := ⟨(Archive.encodeFrom 0 archive).1.toArray⟩
  ⟨(bytes now).toList, Archive.reread? (bytes opened) (bytes now)⟩

/-- A file system with an archive that is being written: what a reader sees who opened files when the
archive had the entries `opened`, and who reads when it has the entries `now`. -/
abbrev Surroundings := (opened now : Archive) → FileSystem

/-- A file system in which an archive is written at a path. -/
def FileSystem.during (fs : FileSystem) (output : String) (unfinished : Unfinished) : Surroundings :=
  fun opened now => fs.rewritten output (unfinished opened now)

/-! ## Entries -/

/-- An archive that is being assembled. Lists hold the last item first. -/
structure AssemblyState where
  entries : List ArchiveEntry
  names : Std.HashSet String
  substituted : List String
  duplicates : List String

/-- A step of an assembly. After a failure the state holds the entries so far. -/
abbrev Assembling := EStateM AccessError AssemblyState

namespace AssemblyState

def start : AssemblyState := ⟨[], ∅, [], []⟩

def archive (s : AssemblyState) : Archive := s.entries.reverse

def push (s : AssemblyState) (name : String) (content : List UInt8) : AssemblyState :=
  { s with entries := ⟨name, .bytes content⟩ :: s.entries, names := s.names.insert name }

/-- Takes an entry, unless one with its name was taken. The content is read from the copy of the
entry, if there is one, and else as `original` says. -/
def accept (during : Surroundings) (substitutions : List (String × String)) (name : String)
    (original : Archive → Except AccessError (List UInt8)) : Assembling Unit := do
  let s ← get
  if s.names.contains name then
    set { s with duplicates := name :: s.duplicates }
  else
    match substitutions.lookup name with
    | some copy =>
      match (during s.archive s.archive).readFile copy with
      | .ok content => set ({ s with substituted := name :: s.substituted }.push name content)
      | .error error => throw error
    | none =>
      match original s.archive with
      | .ok content => set (s.push name content)
      | .error error => throw error

/-- Takes the files below a directory. A directory that is missing has none. -/
def acceptFiles (during : Surroundings) (substitutions : List (String × String)) (path : String) :
    Assembling Unit := do
  let s ← get
  let fs := during s.archive s.archive
  if fs.isDirectory path then
    match fs.filesBelow false path with
    | .error error => throw error
    | .ok names =>
      names.forM fun name =>
        accept during substitutions name fun now => (during now now).readFile (Path.join path name)

/-- What the entry of an archive at an index has to give now. -/
def contentNow (during : Surroundings) (path : String) (opened : Archive) (index : Nat)
    (now : Archive) : EntryContent :=
  match (during opened now).openArchive path with
  | .ok archive => (archive[index]?.map (·.content)).getD .corrupt
  | .error _ => .corrupt

/-- Takes an entry of an archive, unless it is a directory. An entry that is refused is an error,
whatever its name is. -/
def acceptEntry (during : Surroundings) (substitutions : List (String × String)) (path : String)
    (opened : Archive) (name : String) (index : Nat) : Assembling Unit := do
  let s ← get
  let content := contentNow during path opened index s.archive
  match content.refusal? with
  | some cause => throw (.listArchive path cause)
  | none =>
    if !Archive.isDirectoryName name then
      accept during substitutions name fun _ => content.read.mapError (.readEntry path name)

def acceptEntries (during : Surroundings) (substitutions : List (String × String)) (path : String) :
    Assembling Unit := do
  let s ← get
  match (during s.archive s.archive).openArchive path with
  | .error error => throw error
  | .ok archive =>
    archive.zipIdx.forM fun x => acceptEntry during substitutions path s.archive x.1.name x.2

def acceptRoot (during : Surroundings) (substitutions : List (String × String)) :
    Root → Assembling Unit
  | .directory path => acceptFiles during substitutions path
  | .archive path => acceptEntries during substitutions path

def report (s : AssemblyState) (output : String) : AssemblyReport :=
  ⟨output, s.entries.length, s.substituted.reverse, s.duplicates.reverse⟩

end AssemblyState

/-! ## Archives -/

/-- Begins an archive: makes the directories above it and an empty file. -/
def beginArchive (output : String) : FileSystem.Action AccessError Unit := do
  match Path.parent? output with
  | some above => FileSystem.createDirectories above
  | none => pure ()
  FileSystem.createFile output (.ofBytes [])

def assemble (unfinished : Unfinished) (inputs : Inputs) (substitutions : List (String × String))
    (output : String) : FileSystem.Action AccessError AssemblyReport := do
  beginArchive output
  let fs ← get
  let accepted := inputs.roots.forM
    (AssemblyState.acceptRoot (fs.during output unfinished) substitutions) .start
  match accepted with
  | .ok () s =>
    FileSystem.createFile output (.ofArchive s.archive)
    return s.report output
  | .error error s =>
    FileSystem.createFile output (.ofArchive s.archive)
    throw error

end Registrar
