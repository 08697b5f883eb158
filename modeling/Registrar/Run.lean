import Registrar.CommandLine
import Registrar.Report
import Registrar.Rule.File

/-!
# A run

`run` does what the command line asks for: it reads the rules, scans the inputs, puts the calls into
the classes that register, assembles an archive and reports.
-/

namespace Registrar

inductive RunError where
  | inputNotFound (path : String)
  | ruleFile (path : String) (cause : RuleFileError)
  | rule (index : Nat) (path : String) (cause : RuleError)
  | access (cause : AccessError)

def RunError.summary : RunError → String
  | .inputNotFound path => "input not found: " ++ path
  | .ruleFile path cause => cause.message path
  | .rule index path cause => s!"invalid rule #{index} in " ++ path ++ ": " ++ cause.message
  | .access cause => cause.summary

def RunError.message : RunError → String
  | .access cause => cause.message
  | error => error.summary

/-- Makes the rules of a file ready for use, from the one at `index` on. -/
def compileRules (path : String) : Nat → List RuleConfig → Except RunError (List Rule)
  | _, [] => .ok []
  | index, c :: rest => do
    let first ← (Rule.ofConfig c).mapError (.rule index path)
    return first :: (← compileRules path (index + 1) rest)

def loadRuleFile (fs : FileSystem) (path : String) : Except RunError (List Rule) := do
  let content ← (fs.readText path).mapError .access
  let configs ← (RuleFile.parse content).mapError (.ruleFile path)
  compileRules path 0 configs

def loadRules (fs : FileSystem) (paths : List String) : Except RunError (List Rule) :=
  (paths.mapM (loadRuleFile fs)).map (·.flatten)

structure RunSummary where
  classes : Nat
  injected : Nat
  deriving DecidableEq, Repr

structure RunResult where
  output : String
  summary : RunSummary
  deriving DecidableEq, Repr

def isPrinted (path : String) : Bool :=
  (Path.pieces path).head? == some "-" && Path.steps path == ["-"]

/-- Sends a report to a file, or gives it back to be printed. -/
def sendReport (destination : Option String) (text : String) :
    FileSystem.Action RunError String := do
  match destination with
  | none => return text
  | some path =>
    if isPrinted path then return text
    (FileSystem.write path (.ofBytes (Utf8.encode text))).adaptExcept fun cause =>
      .access (.openFile path cause)
    return ""

def run (unfinished : Unfinished) (o : Options) : FileSystem.Action RunError RunResult := do
  let fs ← get
  match (o.dirs ++ o.jars).find? fun path => !fs.exists? path with
  | some path => throw (.inputNotFound path)
  | none => pure ()
  let rules ← match loadRules fs o.configs with
    | .ok rules => pure rules
    | .error error => throw error
  let inputs : Inputs := ⟨o.dirs, o.jars⟩
  let scan := Scan.of fs inputs rules
  let (outcomes, fs) := injectAll inputs rules scan.matched o.workPath fs
  set fs
  let assembly ← match o.output with
    | none => pure none
    | some output =>
      some <$> (assemble unfinished inputs (substitutions outcomes) output).adaptExcept .access
  let printed ←
    if o.quiet then pure ""
    else sendReport o.report (Report.of rules scan outcomes assembly none).text
  return ⟨printed, ⟨scan.classCount, outcomes.countP (·.isInjected)⟩⟩

end Registrar
