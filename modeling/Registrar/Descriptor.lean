/-!
# Method descriptors

`MethodDescriptor.parse` reads the parameter types and the return type of a method.
`RegisterSignature.of?` says whether a method can take one registered object, and how many stack
slots its result leaves.
-/

namespace Registrar

inductive FieldType where
  /-- A type written as one letter. `void` counts as one. -/
  | letter (name : Char)
  | object (name : String)
  | array (dimensions : Nat) (element : FieldType)
  deriving DecidableEq, Repr

inductive DescriptorError where
  | noParameters
  | unexpectedEnd
  | noSemicolon
  | tooManyDimensions
  | noElement
  | noReturnType
  | unknownType
  deriving DecidableEq, Repr

def DescriptorError.message (e : DescriptorError) : String :=
  "parse method descriptor: " ++
    match e with
    | .noParameters => "Invalid descriptor: Method descriptor must start with '('."
    | .unexpectedEnd => "Unexpected end of input."
    | .noSemicolon => "Invalid descriptor: Missing semicolon in class name descriptor."
    | .tooManyDimensions => "Array has too many dimensions."
    | .noElement => "Invalid descriptor: Invalid descriptor."
    | .noReturnType => "Invalid descriptor: Missing return type."
    | .unknownType => "Invalid descriptor: Unrecognized type descriptor."

structure MethodDescriptor where
  parameters : List FieldType
  result : FieldType
  deriving DecidableEq, Repr

namespace FieldType

def isLetter (c : Char) : Bool := "ZBCSIJFDV".toList.contains c

/-- Takes a type that is no array off the front of the text. `closing` is the error for a closing
parenthesis. -/
def parseSimple (closing : DescriptorError) :
    List Char → Except DescriptorError (FieldType × List Char)
  | [] => .error .unexpectedEnd
  | 'L' :: rest =>
    let (name, rest) := rest.span (· != ';')
    match rest with
    | _ :: rest => .ok (.object (String.ofList name), rest)
    | [] => .error .noSemicolon
  | c :: rest =>
    if isLetter c then .ok (.letter c, rest)
    else if c = ')' then .error closing
    else .error .unknownType

def maxDimensions : Nat := 255

/-- Takes a type off the front of the text. `closing` is the error for a closing parenthesis. -/
def parse (closing : DescriptorError) (text : List Char) :
    Except DescriptorError (FieldType × List Char) :=
  let (brackets, rest) := text.span (· == '[')
  let dimensions := brackets.length
  if dimensions = 0 then parseSimple closing rest
  else if maxDimensions < dimensions then .error .tooManyDimensions
  else
    match parseSimple .noElement rest with
    | .ok (element, rest) => .ok (.array dimensions element, rest)
    | .error error => .error error

end FieldType

namespace MethodDescriptor

/-- Takes parameter types and the closing parenthesis off the front of the text, onto `found`, which
holds the earlier types, the last first. Each type takes a character, so `bound` types are enough
for a text of that length. -/
def takeParameters :
    Nat → List FieldType → List Char → Except DescriptorError (List FieldType × List Char)
  | 0, _, _ => .error .unexpectedEnd
  | bound + 1, found, text =>
    match text with
    | ')' :: rest => .ok (found.reverse, rest)
    | text =>
      match FieldType.parse .unknownType text with
      | .ok (type, rest) => takeParameters bound (type :: found) rest
      | .error error => .error error

/-- Reads a descriptor. What follows the return type is not looked at. -/
def parse (text : String) : Except DescriptorError MethodDescriptor :=
  match text.toList with
  | '(' :: rest =>
    match takeParameters (rest.length + 1) [] rest with
    | .error error => .error error
    | .ok (types, rest) =>
      match FieldType.parse .noReturnType rest with
      | .ok (result, _) => .ok ⟨types, result⟩
      | .error error => .error error
  | _ => .error .noParameters

def returnSlots (d : MethodDescriptor) : Nat :=
  match d.result with
  | .letter 'V' => 0
  | .letter 'J' => 2
  | .letter 'D' => 2
  | _ => 1

end MethodDescriptor

/-- The shape of a method that takes one registered object. -/
structure RegisterSignature where
  parameter : String
  returnSlots : Nat
  deriving DecidableEq, Repr

namespace RegisterSignature

/-- The shape of a method with a descriptor, if its only parameter is an object. -/
def of? (descriptor : String) : Except DescriptorError (Option RegisterSignature) :=
  match MethodDescriptor.parse descriptor with
  | .error error => .error error
  | .ok d =>
    match d.parameters with
    | [.object name] => .ok (some ⟨name, d.returnSlots⟩)
    | _ => .ok none

end RegisterSignature

end Registrar
