import Registrar.Metadata.HeaderWalk

/-!
# Reading metadata

`Metadata.read` takes the facts from the outline of a class file. A class file whose only fault is
an attribute of unknown layout is walked over instead.
-/

namespace Registrar.Metadata

/-- The least number of bytes of a class file that is looked into. -/
def minLength : Nat := 10

def hasHeader (data : List UInt8) : Bool :=
  minLength ≤ data.length && data.take 4 == bytes32 ClassFile.magic

def read (data : List UInt8) : Except MetadataError Metadata :=
  if !hasHeader data then .error .badHeader
  else
    match Outline.read data with
    | .ok outline => outline.metadata
    | .error error =>
      if error.isUnknownAttribute then HeaderWalk.metadata data else .error (.outline error)

end Registrar.Metadata
