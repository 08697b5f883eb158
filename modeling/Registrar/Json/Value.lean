/-!
# JSON values

The fields of an object stand in the order they are written. A parsed object has its fields in
ascending key order, with one field per key: `Json.put` keeps that order and lets the later of two
equal keys win.
-/

namespace Registrar

/-- A JSON number: an integer of at most 64 bits, or a double. -/
inductive JsonNumber where
  /-- An integer from `-2^63` to `2^64 - 1`. -/
  | integer (value : Int)
  | float (value : Float)

inductive Json where
  | null
  | bool (value : Bool)
  | number (value : JsonNumber)
  | string (value : String)
  | array (items : List Json)
  | object (fields : List (String × Json))

namespace Json

instance : Inhabited Json := ⟨.null⟩

def ofNat (n : Nat) : Json := .number (.integer n)

def ofStrings (texts : List String) : Json := .array (texts.map .string)

def get? (key : String) : Json → Option Json
  | .object fields => (fields.find? fun field => field.1 == key).map (·.2)
  | _ => none

/-- Sets the value of a key among fields in ascending key order. -/
def put (key : String) (value : Json) : List (String × Json) → List (String × Json)
  | [] => [(key, value)]
  | (k, v) :: fields =>
    if key < k then (key, value) :: (k, v) :: fields
    else if key = k then (key, value) :: fields
    else (k, v) :: put key value fields

end Json

end Registrar
