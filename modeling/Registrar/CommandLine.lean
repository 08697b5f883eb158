/-!
# The command line

`Options.parse` reads the arguments from the left. The value of an option is looked at when the next
known option or the end is met; an unknown argument before that hides what is wrong with the value.
-/

namespace Registrar

inductive ValueOption where
  | dir
  | jar
  | config
  | workDir
  | output
  | report
  | otel
  deriving DecidableEq, Repr

inductive FlagOption where
  | quiet
  | timing
  | help
  | version
  deriving DecidableEq, Repr

/-- Why the arguments are refused, or what they ask for in place of a run. -/
inductive UsageError where
  | displayHelp
  | displayVersion
  | missingRequiredArgument
  | invalidValue
  | unknownArgument
  | argumentConflict
  | tooManyValues
  deriving DecidableEq, Repr

structure Options where
  dirs : List String
  jars : List String
  configs : List String
  workDir : Option String
  output : Option String
  report : Option String
  quiet : Bool
  timing : Bool
  otel : Option String
  deriving DecidableEq, Repr

namespace ValueOption

def all : List ValueOption := [.dir, .jar, .config, .workDir, .output, .report, .otel]

def name : ValueOption → String
  | .dir => "dir"
  | .jar => "jar"
  | .config => "config"
  | .workDir => "work-dir"
  | .output => "output"
  | .report => "report"
  | .otel => "otel"

end ValueOption

namespace FlagOption

def all : List FlagOption := [.quiet, .timing, .help, .version]

def name : FlagOption → String
  | .quiet => "quiet"
  | .timing => "timing"
  | .help => "help"
  | .version => "version"

def ofLetter? : Char → Option FlagOption
  | 'h' => some .help
  | 'V' => some .version
  | _ => none

end FlagOption

namespace Options

def initial : Options := ⟨[], [], [], none, none, none, false, false, none⟩

def defaultWorkDir : String := "build/autoreg"

def workPath (o : Options) : String := o.workDir.getD defaultWorkDir

def setOnce (old : Option String) (value : String) (set : String → Options) (path : Bool) :
    Except UsageError Options :=
  if old.isSome then .error .argumentConflict
  else if path && value.isEmpty then .error .invalidValue
  else .ok (set value)

def add (value : String) (options : Options) : Except UsageError Options :=
  if value.isEmpty then .error .invalidValue else .ok options

def setValue (o : Options) (option : ValueOption) (value : String) : Except UsageError Options :=
  match option with
  | .dir => add value { o with dirs := o.dirs ++ [value] }
  | .jar => add value { o with jars := o.jars ++ [value] }
  | .config => add value { o with configs := o.configs ++ [value] }
  | .workDir => setOnce o.workDir value (fun v => { o with workDir := some v }) true
  | .output => setOnce o.output value (fun v => { o with output := some v }) true
  | .report => setOnce o.report value (fun v => { o with report := some v }) true
  | .otel => setOnce o.otel value (fun v => { o with otel := some v }) false

def setFlag (o : Options) : FlagOption → Except UsageError Options
  | .quiet => if o.quiet then .error .argumentConflict else .ok { o with quiet := true }
  | .timing => if o.timing then .error .argumentConflict else .ok { o with timing := true }
  | .help => .error .displayHelp
  | .version => .error .displayVersion

end Options

/-- The last option with a value, as long as the value has not been looked at. -/
inductive PendingValue where
  | none
  | awaited (option : ValueOption)
  | given (option : ValueOption) (value : String)
  deriving DecidableEq, Repr

def PendingValue.settle (o : Options) : PendingValue → Except UsageError Options
  | .none => .ok o
  | .awaited _ => .error .invalidValue
  | .given option value => o.setValue option value

inductive Argument where
  | separator
  | long (name : String) (value : Option String)
  | letters (first : Char) (rest : List Char)
  | plain (text : String)
  deriving DecidableEq, Repr

def Argument.ofText (text : String) : Argument :=
  match text.toList with
  | ['-', '-'] => .separator
  | '-' :: '-' :: rest =>
    let (name, value) := rest.span (· != '=')
    .long (String.ofList name) (if value.isEmpty then none else some (String.ofList value.tail))
  | '-' :: first :: rest => .letters first rest
  | _ => .plain text

namespace Options

def parseFrom (o : Options) (pending : PendingValue) : List String → Except UsageError Options
  | [] => pending.settle o
  | text :: rest =>
    match Argument.ofText text with
    | .separator => if rest.isEmpty then pending.settle o else .error .unknownArgument
    | .long name value =>
      match ValueOption.all.find? (·.name == name), FlagOption.all.find? (·.name == name) with
      | some option, _ => do
        let o ← pending.settle o
        match value with
        | none => o.parseFrom (.awaited option) rest
        | some value => (← o.setValue option value).parseFrom .none rest
      | none, some flag =>
        match value with
        | some _ => .error .tooManyValues
        | none => do
          let o ← pending.settle o
          (← o.setFlag flag).parseFrom .none rest
      | none, none => .error .unknownArgument
    | .letters first _ =>
      match FlagOption.ofLetter? first with
      | some flag => do
        let o ← pending.settle o
        (← o.setFlag flag).parseFrom .none rest
      | none => .error .unknownArgument
    | .plain text =>
      match pending with
      | .awaited option => o.parseFrom (.given option text) rest
      | _ => .error .unknownArgument

/-- Reads the arguments. At least one rule file is required. -/
def parse (arguments : List String) : Except UsageError Options := do
  let o ← initial.parseFrom .none arguments
  if o.configs.isEmpty then throw .missingRequiredArgument
  return o

end Options

end Registrar
