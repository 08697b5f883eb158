import Registrar.Binary.Decoder
import Registrar.Text.ModifiedUtf8

/-!
# Constants

One constant of a class file's pool, with its binary form. A text constant keeps its bytes beside
the text they decode to, because different bytes may decode to one text.
-/

namespace Registrar

inductive Constant where
  /-- The entry at index 0, and the second entry of a 64-bit constant. -/
  | unusable
  | utf8 (value : String) (raw : List UInt8)
  | integer (bits : UInt32)
  | float (bits : UInt32)
  | long (bits : UInt64)
  | double (bits : UInt64)
  | classRef (name : UInt16)
  | string (text : UInt16)
  | fieldRef (owner member : UInt16)
  | methodRef (owner member : UInt16)
  | interfaceMethodRef (owner member : UInt16)
  | nameAndType (name descriptor : UInt16)
  | methodHandle (kind : UInt8) (reference : UInt16)
  | methodType (descriptor : UInt16)
  | dynamic (bootstrap member : UInt16)
  | invokeDynamic (bootstrap member : UInt16)
  | moduleRef (name : UInt16)
  | packageRef (name : UInt16)
  deriving DecidableEq, Repr, Inhabited

namespace Constant

/-- Whether the constant takes two entries of the pool. -/
def isWide : Constant → Bool
  | .long _ => true
  | .double _ => true
  | _ => false

/-- The constant of a text, with the bytes of its modified UTF-8 form. -/
def ofText (text : String) : Constant := .utf8 text (ModifiedUtf8.encode text)

/-- Reads a constant: a tag byte, then the fields that the tag calls for. -/
def decode : Decoder Constant := do
  let tag ← Decoder.u8
  match tag with
  | 1 => do
    let length ← Decoder.u16
    let raw ← Decoder.take length.toNat
    return .utf8 (ModifiedUtf8.decode raw) raw
  | 3 => return .integer (← Decoder.u32)
  | 4 => return .float (← Decoder.u32)
  | 5 => return .long (← Decoder.u64)
  | 6 => return .double (← Decoder.u64)
  | 7 => return .classRef (← Decoder.u16)
  | 8 => return .string (← Decoder.u16)
  | 9 => return .fieldRef (← Decoder.u16) (← Decoder.u16)
  | 10 => return .methodRef (← Decoder.u16) (← Decoder.u16)
  | 11 => return .interfaceMethodRef (← Decoder.u16) (← Decoder.u16)
  | 12 => return .nameAndType (← Decoder.u16) (← Decoder.u16)
  | 15 => return .methodHandle (← Decoder.u8) (← Decoder.u16)
  | 16 => return .methodType (← Decoder.u16)
  | 17 => return .dynamic (← Decoder.u16) (← Decoder.u16)
  | 18 => return .invokeDynamic (← Decoder.u16) (← Decoder.u16)
  | 19 => return .moduleRef (← Decoder.u16)
  | 20 => return .packageRef (← Decoder.u16)
  | tag => Decoder.fail (.unsupportedTag tag)

/-- The bytes of a constant; an unusable entry has none. -/
def encode : Constant → List UInt8
  | .unusable => []
  | .utf8 _ raw => 1 :: (count16 raw.length ++ raw)
  | .integer bits => 3 :: bytes32 bits
  | .float bits => 4 :: bytes32 bits
  | .long bits => 5 :: bytes64 bits
  | .double bits => 6 :: bytes64 bits
  | .classRef name => 7 :: bytes16 name
  | .string text => 8 :: bytes16 text
  | .fieldRef owner member => 9 :: (bytes16 owner ++ bytes16 member)
  | .methodRef owner member => 10 :: (bytes16 owner ++ bytes16 member)
  | .interfaceMethodRef owner member => 11 :: (bytes16 owner ++ bytes16 member)
  | .nameAndType name descriptor => 12 :: (bytes16 name ++ bytes16 descriptor)
  | .methodHandle kind reference => 15 :: kind :: bytes16 reference
  | .methodType descriptor => 16 :: bytes16 descriptor
  | .dynamic bootstrap member => 17 :: (bytes16 bootstrap ++ bytes16 member)
  | .invokeDynamic bootstrap member => 18 :: (bytes16 bootstrap ++ bytes16 member)
  | .moduleRef name => 19 :: bytes16 name
  | .packageRef name => 20 :: bytes16 name

end Constant

end Registrar
