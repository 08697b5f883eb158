/-!
# Checksums

The 32-bit cyclic redundancy check of a content, with the reflected polynomial `EDB88320`.
-/

namespace Registrar.Checksum

def shift (rest : UInt32) : UInt32 :=
  if rest &&& 1 = 0 then rest >>> 1 else (rest >>> 1) ^^^ 0xEDB88320

def remainder (byte : Nat) : UInt32 :=
  (List.range 8).foldl (fun rest _ => shift rest) (UInt32.ofNat byte)

def table : Array UInt32 := ((List.range 256).map remainder).toArray

def step (rest : UInt32) (byte : UInt8) : UInt32 :=
  table.getD ((rest ^^^ byte.toUInt32).toNat % 256) 0 ^^^ (rest >>> 8)

def of (content : List UInt8) : UInt32 := content.foldl step 0xFFFFFFFF ^^^ 0xFFFFFFFF

end Registrar.Checksum
