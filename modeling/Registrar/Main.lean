import Registrar.FileSystem.Changes
import Registrar.Run

/-!
# The program

Reads what the command line names into a file tree, does the run on it, and writes what changed.
-/

namespace Registrar.Program

def helpText : String :=
  "Find JVM classes by interface or superclass and register them in a target class's " ++
    "initializer.\n\n" ++
  "Usage: autoreg [OPTIONS] --config <PATH>\n\n" ++
  "Options:\n" ++
  "      --dir <PATH>       Directory of compiled classes; repeat to scan several, in order\n" ++
  "      --jar <PATH>       Jar or zip archive; repeat to scan several, in order\n" ++
  "      --config <PATH>    JSON rule file; rules from several files are concatenated\n" ++
  "      --work-dir <PATH>  Scratch directory for rewritten target classes " ++
  "[default: build/autoreg]\n" ++
  "      --output <PATH>    Write a merged archive with rewritten classes substituted\n" ++
  "      --report <PATH>    Report destination; a hyphen or none writes to stdout\n" ++
  "      --quiet            \n" ++
  "      --timing           \n" ++
  "      --otel <URL>       OTLP/HTTP endpoint for trace export\n" ++
  "  -h, --help             Print help\n" ++
  "  -V, --version          Print version"

def versionText : String := "autoreg 0.1.0"

def usageText : UsageError → String
  | .displayHelp => helpText
  | .displayVersion => versionText
  | .missingRequiredArgument =>
    "error: the following required arguments were not provided:\n  --config <PATH>"
  | .invalidValue => "error: a value is required for an option but none was supplied"
  | .unknownArgument => "error: unexpected argument found"
  | .argumentConflict => "error: an argument cannot be used multiple times"
  | .tooManyValues => "error: unexpected value for a flag"

def pathOf (place : List String) : String := "/" ++ Path.ofPieces place

partial def loadTree (path : String) : IO FileTree := do
  let here := (← IO.currentDir) / path
  if ← here.isDir then
    try
      let entries ← here.readDir
      let trees ← entries.toList.mapM fun entry => do
        return (entry.fileName, ← loadTree (Path.join path entry.fileName))
      let canEnter ← (here / ".").pathExists
      return .directory ⟨true, true, canEnter⟩ trees
    catch _ => return .directory ⟨false, true, true⟩ []
  else
    try
      return .file .full (.ofBytes (← IO.FS.readBinFile path).toList)
    catch _ => return .file ⟨false, true, false⟩ (.ofBytes [])

/-- Adds to a tree what stands on the way along some steps. Gives the place they lead to, if
something stands there. -/
def loadAlong (root : FileTree) (place : List String) :
    List String → IO (FileTree × Option (List String))
  | [] => return (root, some place)
  | step :: steps => do
    let next := if step = ".." then place.dropLast else place ++ [step]
    if (root.get? next).isSome then loadAlong root next steps
    else
      let here := (← IO.currentDir) / pathOf next
      if ← here.isDir then loadAlong (FileTree.put (.directory .full []) root next) next steps
      else if ← here.pathExists then
        let tree ← loadTree (pathOf next)
        return (FileTree.put tree root next, if steps.isEmpty then some next else none)
      else return (root, none)

/-- Adds what a path leads to, and with `deep` everything below it. -/
def load (deep : Bool) (fs : FileSystem) (path : String) : IO FileSystem := do
  let (root, place) ← loadAlong fs.root (fs.start path) (Path.steps path)
  match place with
  | some place =>
    if deep then return { fs with root := FileTree.put (← loadTree (pathOf place)) root place }
    else return { fs with root }
  | none => return { fs with root }

def loadAll (o : Options) : IO FileSystem := do
  let place := Path.steps (← IO.currentDir).toString
  let (root, _) ← loadAlong (.directory .full []) [] place
  let mut fs : FileSystem := ⟨root, place⟩
  for path in o.dirs ++ [Path.join o.workPath "classes"] do fs ← load true fs path
  for path in o.configs ++ o.output.toList ++ o.report.toList ++ o.jars do fs ← load false fs path
  return fs

def apply : FileChange → IO Unit
  | .makeDirectory place => IO.FS.createDirAll (pathOf place)
  | .writeFile place data => IO.FS.writeBinFile (pathOf place) ⟨data.toArray⟩

/-- Does what the options ask for. Gives the exit code. -/
def perform (o : Options) : IO UInt32 := do
  let started ← IO.monoMsNow
  let fs ← loadAll o
  match run Unfinished.stored o fs with
  | .ok result after =>
    (fs.root.changes after.root).forM apply
    IO.print result.output
    if o.timing then
      let summary := result.summary
      IO.eprintln <| s!"timing: total_ms={(← IO.monoMsNow) - started} " ++
        s!"classes={summary.classes} injected={summary.injected}"
    return 0
  | .error error after =>
    (fs.root.changes after.root).forM apply
    IO.eprintln ("Error: " ++ error.message)
    return 1

end Registrar.Program

def main (arguments : List String) : IO UInt32 := do
  match Registrar.Options.parse arguments with
  | .ok options => Registrar.Program.perform options
  | .error error =>
    let text := Registrar.Program.usageText error
    match error with
    | .displayHelp | .displayVersion =>
      IO.println text
      return 0
    | _ =>
      IO.eprintln text
      return 2
