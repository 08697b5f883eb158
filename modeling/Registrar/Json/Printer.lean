import Registrar.Json.Value

/-!
# Writing JSON

`Json.compact` writes a value without blanks. `Json.pretty` writes each item on a line of its own,
two blanks deeper than what holds it, and an empty array or object without a line break.
-/

namespace Registrar.Json

def hexChar (n : Nat) : Char := if n < 10 then Char.ofNat (48 + n) else Char.ofNat (87 + n)

def escapeChar (c : Char) : List Char :=
  if c = '"' then ['\\', '"']
  else if c = '\\' then ['\\', '\\']
  else if c = '\n' then ['\\', 'n']
  else if c = '\t' then ['\\', 't']
  else if c = '\x0d' then ['\\', 'r']
  else if c = '\x08' then ['\\', 'b']
  else if c = '\x0c' then ['\\', 'f']
  else if c.toNat < 0x20 then ['\\', 'u', '0', '0', hexChar (c.toNat / 16), hexChar (c.toNat % 16)]
  else [c]

def quote (text : String) : String :=
  "\"" ++ String.ofList (text.toList.flatMap escapeChar) ++ "\""

/-- A number. A double is written to six places; no value that is written holds one. -/
def numberText : JsonNumber → String
  | .integer value => toString value
  | .float value => toString value

def joined (separator : String) (parts : List String) : String := separator.intercalate parts

def lineBreak (depth : Nat) : String := "\n" ++ String.ofList (List.replicate (2 * depth) ' ')

mutual

def compact : Json → String
  | .null => "null"
  | .bool value => if value then "true" else "false"
  | .number value => numberText value
  | .string value => quote value
  | .array items => "[" ++ joined "," (compactItems items) ++ "]"
  | .object fields => "\x7b" ++ joined "," (compactFields fields) ++ "\x7d"

def compactItems : List Json → List String
  | [] => []
  | item :: items => compact item :: compactItems items

def compactFields : List (String × Json) → List String
  | [] => []
  | (key, value) :: fields => (quote key ++ ":" ++ compact value) :: compactFields fields

end

mutual

def prettyAt (depth : Nat) : Json → String
  | .null => "null"
  | .bool value => if value then "true" else "false"
  | .number value => numberText value
  | .string value => quote value
  | .array [] => "[]"
  | .array items =>
    "[" ++ lineBreak (depth + 1) ++
      joined ("," ++ lineBreak (depth + 1)) (prettyItems (depth + 1) items) ++
      lineBreak depth ++ "]"
  | .object [] => "\x7b\x7d"
  | .object fields =>
    "\x7b" ++ lineBreak (depth + 1) ++
      joined ("," ++ lineBreak (depth + 1)) (prettyFields (depth + 1) fields) ++
      lineBreak depth ++ "\x7d"

def prettyItems (depth : Nat) : List Json → List String
  | [] => []
  | item :: items => prettyAt depth item :: prettyItems depth items

def prettyFields (depth : Nat) : List (String × Json) → List String
  | [] => []
  | (key, value) :: fields =>
    (quote key ++ ": " ++ prettyAt depth value) :: prettyFields depth fields

end

def pretty (value : Json) : String := prettyAt 0 value

end Registrar.Json
