import Registrar.FileSystem.Basic
import Registrar.Text.Utf8

/-!
# Reading and writing with a reason

The ways in which the program uses a file system. A failure says what was tried, and why it failed.
-/

namespace Registrar

inductive AccessError where
  | listDirectory (path : String) (cause : FileFault)
  | readFile (path : String) (cause : FileFault)
  | openFile (path : String) (cause : FileFault)
  | readArchive (path : String)
  | listArchive (path : String) (cause : String)
  | readEntry (path name : String) (cause : EntryFault)
  | create (path : String) (cause : FileFault)
  | writeFile (path : String) (cause : FileFault)
  deriving DecidableEq, Repr

namespace AccessError

def summary : AccessError → String
  | .listDirectory path _ => "failed to read directory " ++ path
  | .readFile path _ => "failed to read " ++ path
  | .openFile path _ => "failed to open " ++ path
  | .readArchive path => "failed to read " ++ path
  | .listArchive path _ => "failed to read " ++ path
  | .readEntry path name _ => "failed to read " ++ path ++ ":" ++ name
  | .create path _ => "failed to create " ++ path
  | .writeFile path _ => "failed to write " ++ path

def cause : AccessError → String
  | .listDirectory _ cause => cause.message
  | .readFile _ cause => cause.message
  | .openFile _ cause => cause.message
  | .readArchive _ => "invalid Zip archive: Could not find EOCD"
  | .listArchive _ cause => cause
  | .readEntry _ _ cause => cause.message
  | .create _ cause => cause.message
  | .writeFile _ cause => cause.message

def message (e : AccessError) : String := e.summary ++ ": " ++ e.cause

end AccessError

namespace FileSystem

/-! ## Reading -/

def readFile (fs : FileSystem) (path : String) : Except AccessError (List UInt8) :=
  (fs.read path).mapError (.readFile path)

def readText (fs : FileSystem) (path : String) : Except AccessError String :=
  match fs.readFile path with
  | .error error => .error error
  | .ok data =>
    match Utf8.decode? data with
    | some text => .ok (String.ofList text)
    | none => .error (.readFile path .notText)

def openArchive (fs : FileSystem) (path : String) : Except AccessError Archive :=
  match fs.find path with
  | .ok (_, .file access content) =>
    if access.read then
      match content.archive with
      | some archive => .ok archive
      | none => .error (.readArchive path)
    else .error (.openFile path .denied)
  | .ok (_, .directory access _) =>
    .error (if access.read then .readArchive path else .openFile path .denied)
  | .error fault => .error (.openFile path fault)

def readEntry (fs : FileSystem) (path name : String) : Except AccessError (List UInt8) :=
  match fs.openArchive path with
  | .error error => .error error
  | .ok archive => (archive.read name).mapError (.readEntry path name)

/-- The names of the entries of an archive that are files, in the order in which they are stored. One
entry that is refused hides all the others. -/
def archiveNames (fs : FileSystem) (path : String) : Except AccessError (List String) :=
  match fs.openArchive path with
  | .error error => .error error
  | .ok archive =>
    match archive.refusal? with
    | some cause => .error (.listArchive path cause)
    | none => .ok (archive.files.map (·.name))

/-- The paths of all files below a directory, from there on. A directory below it that cannot be
listed is an error; with `lenient` it is passed over. -/
def filesBelow (fs : FileSystem) (lenient : Bool) (path : String) :
    Except AccessError (List String) :=
  match fs.find path with
  | .error fault => .error (.listDirectory path fault)
  | .ok (_, tree) =>
    if !tree.isDirectory then .error (.listDirectory path .notDirectory)
    else
      match tree.walk lenient (Path.room path) with
      | .ok places => .ok (places.map Path.ofPieces)
      | .error place => .error (.listDirectory (place.foldl Path.join path) .denied)

/-! ## Writing -/

def createDirectories (path : String) : Action AccessError Unit :=
  (makeDirectories path).adaptExcept (.create path)

def createFile (path : String) (content : File) : Action AccessError Unit :=
  (write path content).adaptExcept (.create path)

/-- Writes a file in a directory that is made if it is missing. -/
def writeBelow (path : String) (data : List UInt8) : Action AccessError Unit := do
  if let some above := Path.parent? path then createDirectories above
  (write path (.ofBytes data)).adaptExcept (.writeFile path)

end FileSystem

end Registrar
