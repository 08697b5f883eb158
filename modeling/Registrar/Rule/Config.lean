import Registrar.ClassFile.Basic
import Registrar.Json.Value

/-!
# Rules as they are written

`RuleConfig` holds the fields of one rule as they stand in a rule file. `RuleField` names the
fields; two of them, and the name of the target method, have a second name.
-/

namespace Registrar

structure RuleConfig where
  scanInterface : String
  scanSuperClasses : List String
  /-- Patterns of which a registered class must match one, if there are any. -/
  included : List String
  excluded : List String
  targetClass : String
  targetMethod : String
  registerMethod : String
  deriving DecidableEq, Repr

inductive RuleField where
  | scanInterface
  | scanSuperClasses
  | included
  | excluded
  | targetClass
  | targetMethod
  | registerMethod
  deriving DecidableEq, Repr

namespace RuleField

/-- All fields, in the order in which they stand in a rule that is written as a list. -/
def all : List RuleField :=
  [.scanInterface, .scanSuperClasses, .included, .excluded, .targetClass, .targetMethod,
    .registerMethod]

def name : RuleField → String
  | .scanInterface => "scanInterface"
  | .scanSuperClasses => "scanSuperClasses"
  | .included => "include"
  | .excluded => "exclude"
  | .targetClass => "codeInsertToClassName"
  | .targetMethod => "codeInsertToMethodName"
  | .registerMethod => "registerMethodName"

def alias? : RuleField → Option String
  | .targetClass => some "targetClassName"
  | .targetMethod => some "targetMethodName"
  | .registerMethod => some "registerMethod"
  | _ => none

def names (f : RuleField) : List String := (f.name :: f.alias?.toList).mergeSort (· ≤ ·)

def ofName? (name : String) : Option RuleField :=
  all.find? fun f => f.name == name || f.alias? == some name

def isOptional : RuleField → Bool
  | .targetClass => false
  | .registerMethod => false
  | _ => true

/-- The position of a field in a rule that is written as a list. -/
def position (f : RuleField) : Nat := all.idxOf f

end RuleField

namespace RuleConfig

/-- A rule whose optional fields are left out: calls are put into the static initializer. -/
def initial : RuleConfig := ⟨"", [], [], [], "", ClassFile.staticInitializer, ""⟩

/-- The fields of a rule under their own names, in the order of `RuleField.all`. -/
def toJson (c : RuleConfig) : Json :=
  .object [
    (RuleField.scanInterface.name, .string c.scanInterface),
    (RuleField.scanSuperClasses.name, .ofStrings c.scanSuperClasses),
    (RuleField.included.name, .ofStrings c.included),
    (RuleField.excluded.name, .ofStrings c.excluded),
    (RuleField.targetClass.name, .string c.targetClass),
    (RuleField.targetMethod.name, .string c.targetMethod),
    (RuleField.registerMethod.name, .string c.registerMethod)]

end RuleConfig

end Registrar
