import Registrar.ClassFile.Member

/-!
# Class files

`ClassFile.decode` reads a whole class file and refuses bytes after its end; `ClassFile.encode`
writes it.
-/

namespace Registrar

structure ClassFile where
  minorVersion : UInt16
  majorVersion : UInt16
  pool : ConstantPool
  access : AccessFlags
  thisClass : UInt16
  superClass : UInt16
  interfaces : List UInt16
  fields : List Member
  methods : List Member
  attributes : List Attribute
  deriving DecidableEq, Repr, Inhabited

namespace ClassFile

def magic : UInt32 := 0xCAFEBABE

def staticInitializer : String := "<clinit>"

def constructor : String := "<init>"

def decodeFront : Decoder ClassFile := do
  let found ← Decoder.u32
  if found != magic then Decoder.fail .badMagic
  let minorVersion ← Decoder.u16
  let majorVersion ← Decoder.u16
  let pool ← Decoder.within .constantPool ConstantPool.decode
  let access ← Decoder.u16
  let thisClass ← Decoder.u16
  let superClass ← Decoder.u16
  let interfaces ← Decoder.counted Decoder.u16
  let fields ← Decoder.within .fields Member.decodeAll
  let methods ← Decoder.within .methods Member.decodeAll
  let attributes ← Decoder.within .classAttributes Attribute.decodeAll
  return ⟨minorVersion, majorVersion, pool, ⟨access⟩, thisClass, superClass, interfaces, fields,
    methods, attributes⟩

def decode (data : List UInt8) : Except FormatError ClassFile :=
  match decodeFront data with
  | .error error => .error error
  | .ok (c, []) => .ok c
  | .ok (_, rest) => .error (.trailingAfterClass (data.length - rest.length))

def encode (c : ClassFile) : Except EncodeError (List UInt8) := do
  let fields ← Member.encodeAll c.fields
  let methods ← Member.encodeAll c.methods
  let attributes ← Attribute.encodeAll c.attributes
  return bytes32 magic ++ (bytes16 c.minorVersion ++ (bytes16 c.majorVersion ++ (c.pool.encode ++
    (bytes16 c.access.bits ++ (bytes16 c.thisClass ++ (bytes16 c.superClass ++
      (count16 c.interfaces.length ++ (c.interfaces.flatMap bytes16 ++
        (fields ++ (methods ++ attributes))))))))))

def name (c : ClassFile) : Except PoolError String := c.pool.className c.thisClass

def memberName (c : ClassFile) (m : Member) : Except PoolError String := c.pool.utf8 m.name

def memberDescriptor (c : ClassFile) (m : Member) : Except PoolError String :=
  c.pool.utf8 m.descriptor

def isInterface (c : ClassFile) : Bool := c.access.isInterface

end ClassFile

end Registrar
