import Registrar.FileSystem.Access

/-!
# Inputs

The directories and archives that hold the classes. A class named `a/B` is the entry `a/B.class` of
a root. `Inputs.locate?` finds the first root that holds a class.
-/

namespace Registrar

/-! ## Class entries -/

def classSuffix : String := ".class"

def classEntryName (className : String) : String := className ++ classSuffix

/-- What the name of an entry ends with that describes a module. -/
def moduleSuffix : String := "module-info.class"

/-- What the name of an entry starts with that is a variant for one version of the platform. -/
def variantStart : String := "META-INF/versions/"

/-- Whether an entry is a class that can be registered or can register: not the description of a
module, and not a variant for one version of the platform. -/
def isScannableEntry (entry : String) : Bool :=
  classSuffix.toList.isSuffixOf entry.toList && !moduleSuffix.toList.isSuffixOf entry.toList &&
    !variantStart.toList.isPrefixOf entry.toList

/-! ## Roots -/

inductive Root where
  | directory (path : String)
  | archive (path : String)
  deriving DecidableEq, Repr

namespace Root

def path : Root → String
  | .directory path => path
  | .archive path => path

def describe : Root → String
  | .directory path => "directory " ++ path
  | .archive path => "archive " ++ path

/-- Whether a root holds an entry. An archive that cannot be opened holds none, and no archive holds
an entry that is refused. -/
def holds (fs : FileSystem) (entry : String) : Root → Bool
  | .directory path => fs.isFile (Path.join path entry)
  | .archive path =>
    match fs.openArchive path with
    | .ok entries => Archive.holds entries entry
    | .error _ => false

def readEntry (fs : FileSystem) (entry : String) : Root → Except AccessError (List UInt8)
  | .directory path => fs.readFile (Path.join path entry)
  | .archive path => fs.readEntry path entry

def origin (entry : String) : Root → String
  | .directory path => Path.join path entry
  | .archive path => path ++ "!/" ++ entry

/-- The entries of a root that are classes, in ascending order within a directory or an archive. A
directory that is missing has none. -/
def classEntries (fs : FileSystem) : Root → Except AccessError (List String)
  | .directory path =>
    if fs.isDirectory path then (fs.filesBelow true path).map (·.filter isScannableEntry)
    else .ok []
  | .archive path =>
    (fs.archiveNames path).map fun names => (names.mergeSort (· ≤ ·)).filter isScannableEntry

end Root

structure Inputs where
  directories : List String
  archives : List String
  deriving DecidableEq, Repr

namespace Inputs

/-- The roots, in the order in which they are searched: the directories first. -/
def roots (i : Inputs) : List Root := i.directories.map .directory ++ i.archives.map .archive

def locate? (i : Inputs) (fs : FileSystem) (className : String) : Option Root :=
  i.roots.find? (·.holds fs (classEntryName className))

end Inputs

end Registrar
