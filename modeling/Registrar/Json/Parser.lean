import Registrar.Json.Lexer

/-!
# Reading JSON

`Json.ofTokens?` builds a value from tokens with an explicit stack of the containers that are still
open. At most 127 containers may be open at a time.
-/

namespace Registrar.Json

/-- A container that is still open. Items are held with the last one first. -/
inductive Open where
  | array (items : List Json)
  | object (fields : List (String × Json)) (key : String)

inductive Expect where
  | value
  | firstItem
  /-- The first key of an object with no fields yet, or its end. -/
  | firstKey
  | key (fields : List (String × Json))
  | colon (fields : List (String × Json)) (key : String)
  | after (value : Json)

def maxDepth : Nat := 128

def build? (stack : List Open) : Expect → Token → Option (Expect × List Open)
  | .value, t => valueToken? t
  | .firstItem, .closeArray =>
    match stack with
    | .array items :: stack => some (.after (.array items.reverse), stack)
    | _ => none
  | .firstItem, t => valueToken? t
  | .firstKey, .closeObject => some (.after (.object []), stack)
  | .firstKey, .text key => some (.colon [] key, stack)
  | .key fields, .text key => some (.colon fields key, stack)
  | .colon fields key, .colon => some (.value, .object fields key :: stack)
  | .after value, t =>
    match stack, t with
    | .array items :: stack, .comma => some (.value, .array (value :: items) :: stack)
    | .array items :: stack, .closeArray => some (.after (.array (value :: items).reverse), stack)
    | .object fields key :: stack, .comma => some (.key (put key value fields), stack)
    | .object fields key :: stack, .closeObject =>
      some (.after (.object (put key value fields)), stack)
    | _, _ => none
  | _, _ => none
where
  valueToken? : Token → Option (Expect × List Open)
    | .scalar value => some (.after value, stack)
    | .text value => some (.after (.string value), stack)
    | .openArray => some (.firstItem, .array [] :: stack)
    | .openObject => some (.firstKey, stack)
    | _ => none

/-- How many containers are open. An object whose next key is still to come is not on the stack. -/
def depth (stack : List Open) : Expect → Nat
  | .firstKey => stack.length + 1
  | .key _ => stack.length + 1
  | .colon _ _ => stack.length + 1
  | _ => stack.length

def build (expect : Expect) (stack : List Open) : List Token → Option Json
  | [] =>
    match expect, stack with
    | .after value, [] => some value
    | _, _ => none
  | t :: rest =>
    match build? stack expect t with
    | none => none
    | some (expect, stack) =>
      if depth stack expect < maxDepth then build expect stack rest else none

def ofTokens? (tokens : List Token) : Option Json := build .value [] tokens

def parse? (text : String) : Option Json := (Token.scan? text.toList).bind ofTokens?

end Registrar.Json
