import Registrar.ClassFile.Pool

/-!
# Attributes

Attributes of a class, of its members and of method bodies. Their content stays undecoded.
-/

namespace Registrar

inductive EncodeError where
  /-- The content of an attribute is longer than its length field can say. -/
  | attributeTooLarge
  | codeTooLarge
  deriving DecidableEq, Repr

def EncodeError.message : EncodeError → String
  | .attributeTooLarge => "attribute too large: number too large to fit in target type"
  | .codeTooLarge => "code too large: number too large to fit in target type"

/-- The length field of a content, if it can say the length. -/
def length32 (error : EncodeError) (content : List UInt8) : Except EncodeError (List UInt8) :=
  let length := content.length
  if length < 0x100000000 then .ok (bytes32 (UInt32.ofNat length)) else .error error

structure Attribute where
  name : UInt16
  content : List UInt8
  deriving DecidableEq, Repr, Inhabited

namespace Attribute

def decode : Decoder Attribute := do
  let name ← Decoder.u16
  let length ← Decoder.u32
  let content ← Decoder.take length.toNat
  return ⟨name, content⟩

def decodeAll : Decoder (List Attribute) := Decoder.counted decode

def skip : Decoder Unit := do
  Decoder.skip 2
  let length ← Decoder.u32
  Decoder.skip length.toNat

def skipAll : Decoder Unit := do
  let _ ← Decoder.counted skip

def encode (a : Attribute) : Except EncodeError (List UInt8) := do
  let length ← length32 .attributeTooLarge a.content
  return bytes16 a.name ++ (length ++ a.content)

def encodeAll (attributes : List Attribute) : Except EncodeError (List UInt8) := do
  let parts ← attributes.mapM encode
  return count16 attributes.length ++ parts.flatten

end Attribute

end Registrar
