/-!
# Archives

An archive is a list of named entries. A name that ends with a slash or a backslash stands for a
directory.
-/

namespace Registrar

inductive EntryContent where
  | bytes (content : List UInt8)
  /-- The entry can be opened, but what is read does not agree with its checksum. -/
  | corrupt
  /-- The entry cannot even be opened: it is encrypted, or compressed in an unknown way. -/
  | refused (cause : String)
  deriving DecidableEq, Repr

/-- An entry of an archive. The name has slashes. -/
structure ArchiveEntry where
  name : String
  content : EntryContent
  deriving DecidableEq, Repr

/-- The entries of an archive, in the order in which they are stored. -/
abbrev Archive := List ArchiveEntry

inductive EntryFault where
  | missing
  | corrupt
  | refused (cause : String)
  deriving DecidableEq, Repr

def EntryFault.message : EntryFault → String
  | .missing => "specified file not found in archive"
  | .corrupt => "Invalid checksum"
  | .refused cause => cause

namespace EntryContent

def refusal? : EntryContent → Option String
  | .refused cause => some cause
  | _ => none

def read : EntryContent → Except EntryFault (List UInt8)
  | .bytes content => .ok content
  | .corrupt => .error .corrupt
  | .refused cause => .error (.refused cause)

theorem read_eq_ok_iff {content : EntryContent} {data : List UInt8} :
    content.read = .ok data ↔ content = .bytes data := by
  cases content <;> simp [read]

end EntryContent

namespace Archive

def isDirectoryName (name : String) : Bool :=
  match name.toList.getLast? with
  | some c => c = '/' || c = '\\'
  | none => false

def files (a : Archive) : Archive := a.filter fun entry => !isDirectoryName entry.name

/-- Why the first entry that is refused cannot be opened. -/
def refusal? (a : Archive) : Option String := a.findSome? (·.content.refusal?)

def find? (a : Archive) (name : String) : Option ArchiveEntry := List.find? (·.name == name) a

/-- Whether there is an entry with a name that can be opened. -/
def holds (a : Archive) (name : String) : Bool :=
  match a.find? name with
  | some entry => entry.content.refusal?.isNone
  | none => false

def read (a : Archive) (name : String) : Except EntryFault (List UInt8) :=
  match a.find? name with
  | some entry => entry.content.read
  | none => .error .missing

end Archive

end Registrar
