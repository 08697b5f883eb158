import Registrar.Metadata.Basic

/-!
# Walking over a class file for its metadata

`HeaderWalk.metadata` reads the same facts from a class file whose attributes nobody needs to know:
the contents of attributes are passed over by their stored lengths.
-/

namespace Registrar.HeaderWalk

abbrev Walk := StateT (List UInt8) (Except MetadataError)

@[inline] def take {α : Type} (decode : Decoder α) : Walk α := fun input =>
  match decode input with
  | .ok result => .ok result
  | .error error => .error (.format error)

@[inline] def look {α : Type} (found : Except PoolError α) : Walk α := fun input =>
  match found with
  | .ok value => .ok (value, input)
  | .error error => .error (.pool error)

@[inline] def lookName (which : HeaderName) (found : Except PoolError String) : Walk String :=
  fun input =>
    match found with
    | .ok value => .ok (value, input)
    | .error error => .error (.resolving which (.pool error))

def interfaces (pool : ConstantPool) : Nat → NameSet → Walk NameSet
  | 0, found => pure found
  | count + 1, found => do
    let index ← take Decoder.u16
    let name ← lookName .interface (pool.className index)
    interfaces pool count (found.insert name)

def fields : Nat → Walk Unit
  | 0 => pure ()
  | count + 1 => do
    take (Decoder.skip 6)
    take (Decoder.within .skippedFieldAttributes Attribute.skipAll)
    fields count

def isPublicNoArgConstructor (pool : ConstantPool) (access name descriptor : UInt16) :
    Walk Bool := do
  if !(AccessFlags.isPublic ⟨access⟩) then return false
  else if (← look (pool.utf8 name)) != ClassFile.constructor then return false
  else return (← look (pool.utf8 descriptor)) == Outline.noArgDescriptor

/-- Whether one of `count` methods is a public constructor without parameters, or one found before
them was. -/
def hasPublicNoArgConstructor (pool : ConstantPool) : Nat → Bool → Walk Bool
  | 0, found => pure found
  | count + 1, found => do
    let access ← take Decoder.u16
    let name ← take Decoder.u16
    let descriptor ← take Decoder.u16
    take (Decoder.within .skippedMethodAttributes Attribute.skipAll)
    let here ← isPublicNoArgConstructor pool access name descriptor
    hasPublicNoArgConstructor pool count (found || here)

/-- Walks over a class file. What follows the methods is not looked at. -/
def walk : Walk Metadata := do
  let magic ← take Decoder.u32
  if magic != ClassFile.magic then throw (.format .badMagic)
  take (Decoder.skip 4)
  let pool ← take (Decoder.within .constantPool ConstantPool.decode)
  let access ← take Decoder.u16
  let thisClass ← take Decoder.u16
  let superClass ← take Decoder.u16
  let name ← lookName .thisClass (pool.className thisClass)
  let superName ←
    if superClass = 0 then pure "" else lookName .superClass (pool.className superClass)
  let interfaceCount ← take Decoder.u16
  let interfaces ← interfaces pool interfaceCount.toNat NameSet.empty
  let fieldCount ← take Decoder.u16
  fields fieldCount.toNat
  let methodCount ← take Decoder.u16
  let constructor ← hasPublicNoArgConstructor pool methodCount.toNat false
  return ⟨name, superName, interfaces, AccessFlags.isAbstract ⟨access⟩,
    AccessFlags.isInterface ⟨access⟩, constructor⟩

def metadata (data : List UInt8) : Except MetadataError Metadata :=
  match walk data with
  | .ok (found, _) => .ok found
  | .error error => .error error

end Registrar.HeaderWalk
