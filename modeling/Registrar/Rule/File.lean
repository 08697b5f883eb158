import Registrar.Decimal.Shortest
import Registrar.Json.Parser
import Registrar.Rule.Config
import Registrar.Text.Quoted

/-!
# Rule files

A rule file is JSON: a list of rules, or an object whose field `registerInfo` is one. A rule is an
object with the fields of `RuleField`, or a list of their values. The first fault in the order of
the values, with the fields of an object in ascending order of their keys, is reported with its
place.
-/

namespace Registrar

/-! ## Places and faults -/

inductive JsonStep where
  | item (index : Nat)
  | field (key : String)
  deriving DecidableEq, Repr

abbrev JsonPath := List JsonStep

namespace JsonPath

def tailText : JsonPath → String
  | [] => ""
  | .item index :: rest => s!"[{index}]" ++ tailText rest
  | .field key :: rest => "." ++ key ++ tailText rest

/-- The text of a path; a point stands for the value itself. -/
def text : JsonPath → String
  | [] => "."
  | .item index :: rest => s!"[{index}]" ++ tailText rest
  | .field key :: rest => key ++ tailText rest

end JsonPath

inductive Expectation where
  | list
  | text
  | rule
  deriving DecidableEq, Repr

def Expectation.message : Expectation → String
  | .list => "a sequence"
  | .text => "a string"
  | .rule => "struct RuleConfig"

def Json.describe : Json → String
  | .null => "null"
  | .bool value => if value then "boolean `true`" else "boolean `false`"
  | .number (.integer value) => s!"integer `{value}`"
  | .number (.float value) =>
    "floating point `" ++ Decimal.plain (Decimal.ofFloat64Bits value.toBits) ++ "`"
  | .string value => "string " ++ Quoted.render value
  | .array _ => "sequence"
  | .object _ => "map"

inductive ConfigFault where
  | wrongType (found : Json) (expected : Expectation)
  | unknownField (key : String)
  /-- A field is given under both of its names. -/
  | duplicateField (f : RuleField)
  | missingField (f : RuleField)
  /-- A rule that is written as a list ends in front of a field that it must give. -/
  | listTooShort (length : Nat)
  /-- A rule that is written as a list has more items than there are fields. -/
  | listTooLong (length : Nat)

namespace ConfigFault

def expectedNames : String :=
  ", ".intercalate ((RuleField.all.flatMap RuleField.names).map fun name => "`" ++ name ++ "`")

def message : ConfigFault → String
  | .wrongType found expected =>
    "invalid type: " ++ found.describe ++ ", expected " ++ expected.message
  | .unknownField key => "unknown field `" ++ key ++ "`, expected one of " ++ expectedNames
  | .duplicateField f => "duplicate field `" ++ f.name ++ "`"
  | .missingField f => "missing field `" ++ f.name ++ "`"
  | .listTooShort length =>
    s!"invalid length {length}, expected struct RuleConfig with {RuleField.all.length} elements"
  | .listTooLong length => s!"invalid length {length}, expected fewer elements in array"

end ConfigFault

inductive RuleFileError where
  | notJson
  | noRules
  | notRules
  | invalid (path : JsonPath) (fault : ConfigFault)

def RuleFileError.message (origin : String) : RuleFileError → String
  | .notJson => "failed to parse " ++ origin
  | .noRules => origin ++ " has no registerInfo list"
  | .notRules => origin ++ " must contain a list of rules"
  | .invalid path fault =>
    "invalid rule in " ++ origin ++ ": at " ++ path.text ++ ": " ++ fault.message

/-! ## Decoding -/

def Json.asText (path : JsonPath) : Json → Except RuleFileError String
  | .string value => .ok value
  | found => .error (.invalid path (.wrongType found .text))

/-- The results of `decode` on the items of a list, each with its path, from index `start` on. -/
def Json.decodeItems {α : Type} (decode : JsonPath → Json → Except RuleFileError α)
    (path : JsonPath) : Nat → List Json → Except RuleFileError (List α)
  | _, [] => .ok []
  | index, item :: items => do
    let value ← decode (path ++ [.item index]) item
    let values ← decodeItems decode path (index + 1) items
    return value :: values

/-- The results of `decode` on the items of the list that a value must be. -/
def Json.asList {α : Type} (decode : JsonPath → Json → Except RuleFileError α) (path : JsonPath) :
    Json → Except RuleFileError (List α)
  | .array items => decodeItems decode path 0 items
  | found => .error (.invalid path (.wrongType found .list))

namespace RuleConfig

def set (c : RuleConfig) (path : JsonPath) (f : RuleField) (value : Json) :
    Except RuleFileError RuleConfig :=
  match f with
  | .scanInterface => (value.asText path).map fun v => { c with scanInterface := v }
  | .scanSuperClasses =>
    (value.asList Json.asText path).map fun v => { c with scanSuperClasses := v }
  | .included => (value.asList Json.asText path).map fun v => { c with included := v }
  | .excluded => (value.asList Json.asText path).map fun v => { c with excluded := v }
  | .targetClass => (value.asText path).map fun v => { c with targetClass := v }
  | .targetMethod => (value.asText path).map fun v => { c with targetMethod := v }
  | .registerMethod => (value.asText path).map fun v => { c with registerMethod := v }

/-- Reads the fields of an object into a rule. `given` lists the fields that are already read. -/
def ofFields (path : JsonPath) (c : RuleConfig) (given : List RuleField) :
    List (String × Json) → Except RuleFileError RuleConfig
  | [] =>
    match RuleField.all.find? fun f => !f.isOptional && !given.contains f with
    | some f => .error (.invalid path (.missingField f))
    | none => .ok c
  | (key, value) :: rest =>
    match RuleField.ofName? key with
    | none => .error (.invalid (path ++ [.field key]) (.unknownField key))
    | some f =>
      if given.contains f then .error (.invalid path (.duplicateField f))
      else
        match c.set (path ++ [.field key]) f value with
        | .error error => .error error
        | .ok c => ofFields path c (f :: given) rest

/-- Reads a list of values into the fields that are still to come. `length` is the length of the
whole list. -/
def ofItems (path : JsonPath) (length : Nat) (c : RuleConfig) :
    List RuleField → List Json → Except RuleFileError RuleConfig
  | [], [] => .ok c
  | [], _ :: _ => .error (.invalid path (.listTooLong length))
  | f :: fields, [] =>
    if f.isOptional then ofItems path length c fields []
    else .error (.invalid path (.listTooShort f.position))
  | f :: fields, item :: items =>
    match c.set (path ++ [.item f.position]) f item with
    | .error error => .error error
    | .ok c => ofItems path length c fields items

def ofJson (path : JsonPath) : Json → Except RuleFileError RuleConfig
  | .object fields => ofFields path initial [] fields
  | .array items => ofItems path items.length initial RuleField.all items
  | found => .error (.invalid path (.wrongType found .rule))

end RuleConfig

namespace RuleFile

def ofJson : Json → Except RuleFileError (List RuleConfig)
  | .array items => (Json.array items).asList RuleConfig.ofJson []
  | .object fields =>
    match (Json.object fields).get? "registerInfo" with
    | some value => value.asList RuleConfig.ofJson []
    | none => .error .noRules
  | _ => .error .notRules

def parse (content : String) : Except RuleFileError (List RuleConfig) :=
  match Json.parse? content with
  | some value => ofJson value
  | none => .error .notJson

end RuleFile

end Registrar
