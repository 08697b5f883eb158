import Registrar.ClassFile.Attribute

/-!
# Fields and methods
-/

namespace Registrar

structure AccessFlags where
  bits : UInt16
  deriving DecidableEq, Repr, Inhabited

namespace AccessFlags

def isPublic (flags : AccessFlags) : Bool := flags.bits &&& 0x0001 != 0

def isStatic (flags : AccessFlags) : Bool := flags.bits &&& 0x0008 != 0

def static : AccessFlags := ⟨0x0008⟩

def isInterface (flags : AccessFlags) : Bool := flags.bits &&& 0x0200 != 0

def isAbstract (flags : AccessFlags) : Bool := flags.bits &&& 0x0400 != 0

end AccessFlags

structure Member where
  access : AccessFlags
  name : UInt16
  descriptor : UInt16
  /-- The attributes; the body of a method is the one named `Code`. -/
  attributes : List Attribute
  deriving DecidableEq, Repr, Inhabited

namespace Member

def decode : Decoder Member := do
  let access ← Decoder.u16
  let name ← Decoder.u16
  let descriptor ← Decoder.u16
  let attributes ← Attribute.decodeAll
  return ⟨⟨access⟩, name, descriptor, attributes⟩

def decodeAll : Decoder (List Member) := Decoder.counted decode

def encode (m : Member) : Except EncodeError (List UInt8) := do
  let attributes ← Attribute.encodeAll m.attributes
  return bytes16 m.access.bits ++ (bytes16 m.name ++ (bytes16 m.descriptor ++ attributes))

def encodeAll (members : List Member) : Except EncodeError (List UInt8) := do
  let parts ← members.mapM encode
  return count16 members.length ++ parts.flatten

def isStatic (m : Member) : Bool := m.access.isStatic

/-- Whether an attribute's name reads `name` in `pool`. -/
def isNamed (pool : ConstantPool) (name : String) (a : Attribute) : Bool :=
  match pool.utf8 a.name with
  | .ok text => text == name
  | .error _ => false

def attributePosition (m : Member) (pool : ConstantPool) (name : String) : Option Nat :=
  m.attributes.findIdx? (isNamed pool name)

end Member

end Registrar
