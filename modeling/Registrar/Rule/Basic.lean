import Registrar.Metadata.Basic
import Registrar.Pattern.Basic
import Registrar.Rule.Config
import Registrar.Text.Blank
import Registrar.Text.Quoted

/-!
# Rules

`Rule.ofConfig` makes a rule ready for use: names are trimmed and brought into the internal form,
with slashes, and patterns are compiled. `Rule.accepts` says whether a rule registers a class.
-/

namespace Registrar

def dottedName (name : String) : String :=
  String.ofList (name.toList.map fun c => if c = '/' then '.' else c)

def internalName (name : String) : String :=
  String.ofList ((trimBlanks name.toList).map fun c => if c = '.' then '/' else c)

inductive PatternList where
  | included
  | excluded
  deriving DecidableEq, Repr

def PatternList.name : PatternList → String
  | .included => "include"
  | .excluded => "exclude"

inductive RuleError where
  | noTargetClass
  | noRegisterMethod
  | invalidPattern (list : PatternList) (pattern : String)
  deriving DecidableEq, Repr

def RuleError.message : RuleError → String
  | .noTargetClass => RuleField.targetClass.name ++ " must not be empty"
  | .noRegisterMethod => RuleField.registerMethod.name ++ " must not be empty"
  | .invalidPattern list pattern =>
    "compile " ++ list.name ++ " patterns: invalid pattern " ++ Quoted.render pattern

/-- A rule that is ready for use. Names of classes are in the internal form. -/
structure Rule where
  config : RuleConfig
  scanInterface : Option String
  scanSuperClasses : NameSet
  /-- Patterns of which a registered class must match one, if there are any. -/
  included : List NamePattern
  excluded : List NamePattern
  targetClass : String
  targetMethod : String
  registerMethod : String

namespace Rule

def compile (list : PatternList) : List String → Except RuleError (List NamePattern)
  | [] => .ok []
  | pattern :: rest =>
    match NamePattern.compile? pattern with
    | none => .error (.invalidPattern list pattern)
    | some first => (compile list rest).map (first :: ·)

/-- The name of the method into which calls are put: the static initializer if none is given. -/
def targetMethodName (name : String) : String :=
  let name := trimmed name
  if name.isEmpty then ClassFile.staticInitializer else name

def ofConfig (c : RuleConfig) : Except RuleError Rule := do
  let targetClass := internalName c.targetClass
  if targetClass.isEmpty then throw .noTargetClass
  let registerMethod := trimmed c.registerMethod
  if registerMethod.isEmpty then throw .noRegisterMethod
  let included ← compile .included c.included
  let excluded ← compile .excluded c.excluded
  return {
    config := c
    scanInterface := some (internalName c.scanInterface) |>.filter fun name => !name.isEmpty
    scanSuperClasses :=
      NameSet.ofList ((c.scanSuperClasses.map internalName).filter fun name => !name.isEmpty)
    included
    excluded
    targetClass
    targetMethod := targetMethodName c.targetMethod
    registerMethod }

def admits (r : Rule) (name : String) : Bool :=
  (r.included.isEmpty || r.included.any (·.accepts name)) && !r.excluded.any (·.accepts name)

def isRelated (r : Rule) (m : Metadata) : Bool :=
  match r.scanInterface with
  | some interface => m.interfaces.contains interface
  | none => r.scanSuperClasses.contains m.superName

def accepts (r : Rule) (m : Metadata) : Bool :=
  !m.isInterface && !m.isAbstract && m.hasPublicNoArgConstructor &&
    r.admits (dottedName m.name) && r.isRelated m

/-- Whether the rule names neither an interface nor superclasses, so that it registers nothing. -/
def matchesNothing (r : Rule) : Bool := r.scanInterface.isNone && r.scanSuperClasses.isEmpty

def label (r : Rule) : String :=
  let scanned := r.scanInterface.getD ("|".intercalate r.scanSuperClasses.toList)
  scanned ++ " -> " ++ r.targetClass ++ "." ++ r.targetMethod ++ "#" ++ r.registerMethod

def matching (rules : List Rule) (m : Metadata) : List Nat :=
  rules.zipIdx.filterMap fun (rule, index) => if rule.accepts m then some index else none

end Rule

end Registrar
