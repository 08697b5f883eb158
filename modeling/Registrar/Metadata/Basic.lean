import Registrar.ClassFile.Basic
import Registrar.Outline.Basic
import Registrar.Text.NameSet

/-!
# What rules look at

`Metadata` holds the facts of one class that decide whether a rule registers it. They come from the
outline of the class file.
-/

namespace Registrar

/-- The facts about a class that rules look at. Names are in the internal form, with slashes. -/
structure Metadata where
  name : String
  /-- The name of the direct superclass; empty if there is none. -/
  superName : String
  interfaces : NameSet
  isAbstract : Bool
  isInterface : Bool
  hasPublicNoArgConstructor : Bool
  deriving DecidableEq

inductive HeaderName where
  | thisClass
  | superClass
  | interface
  deriving DecidableEq, Repr

def HeaderName.message : HeaderName → String
  | .thisClass => "resolve class name"
  | .superClass => "resolve super class name"
  | .interface => "resolve interface name"

inductive MetadataError where
  | badHeader
  | outline (cause : OutlineError)
  | notClass (index : UInt16)
  | notText (index : UInt16)
  | format (cause : FormatError)
  | pool (cause : PoolError)
  | resolving (which : HeaderName) (cause : MetadataError)
  deriving DecidableEq, Repr

def MetadataError.message : MetadataError → String
  | .badHeader => "invalid class file header"
  | .outline cause => "failed to parse class file bytes: " ++ cause.message
  | .notClass index => s!"constant #{index.toNat} is not a class"
  | .notText index => s!"constant #{index.toNat} is not utf8"
  | .format cause => cause.message
  | .pool cause => cause.message
  | .resolving which cause => which.message ++ ": " ++ cause.message

namespace Outline

def text (o : Outline) (index : UInt16) : Except MetadataError String :=
  match o.constants[index.toNat]? with
  | some (.utf8 value) => .ok value
  | _ => .error (.notText index)

def className (o : Outline) (index : UInt16) : Except MetadataError String :=
  match o.constants[index.toNat]? with
  | some (.classRef name) => o.text name
  | _ => .error (.notClass index)

def noArgDescriptor : String := "()V"

/-- Whether a method is a public constructor without parameters. The name is looked up for public
methods only, and the descriptor for constructors only. -/
def isPublicNoArgConstructor (o : Outline) (m : OutlineMethod) : Except MetadataError Bool := do
  if !(AccessFlags.isPublic ⟨m.access⟩) then return false
  else if (← o.text m.name) != ClassFile.constructor then return false
  else return (← o.text m.descriptor) == noArgDescriptor

def metadata (o : Outline) : Except MetadataError Metadata := do
  let name ← (o.className o.thisClass).mapError (.resolving .thisClass)
  let superName ←
    if o.superClass = 0 then pure ""
    else (o.className o.superClass).mapError (.resolving .superClass)
  let interfaces ← o.interfaces.mapM fun index =>
    (o.className index).mapError (.resolving .interface)
  let constructors ← o.methods.mapM o.isPublicNoArgConstructor
  return ⟨name, superName, NameSet.ofList interfaces, AccessFlags.isAbstract ⟨o.access⟩,
    AccessFlags.isInterface ⟨o.access⟩, constructors.any id⟩

end Outline

end Registrar
