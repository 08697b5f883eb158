import Registrar.ClassFile.Attribute
import Registrar.Code.Instruction

/-!
# Method bodies

The content of a `Code` attribute. The attributes nested in it stay undecoded.
-/

namespace Registrar

/-- An entry of an exception table: offsets from `start` up to `stop` are guarded. -/
structure Handler where
  start : UInt16
  stop : UInt16
  target : UInt16
  catchType : UInt16
  deriving DecidableEq, Repr, Inhabited

namespace Handler

def decode : Decoder Handler := do
  let start ← Decoder.u16
  let stop ← Decoder.u16
  let target ← Decoder.u16
  let catchType ← Decoder.u16
  return ⟨start, stop, target, catchType⟩

def encode (h : Handler) : List UInt8 :=
  bytes16 h.start ++ (bytes16 h.stop ++ (bytes16 h.target ++ bytes16 h.catchType))

end Handler

structure MethodBody where
  maxStack : UInt16
  maxLocals : UInt16
  code : List UInt8
  handlers : List Handler
  attributes : List Attribute
  deriving DecidableEq, Repr, Inhabited

namespace MethodBody

def decodeFront : Decoder MethodBody := do
  let maxStack ← Decoder.u16
  let maxLocals ← Decoder.u16
  let length ← Decoder.u32
  let code ← Decoder.take length.toNat
  let handlers ← Decoder.counted Handler.decode
  let attributes ← Attribute.decodeAll
  return ⟨maxStack, maxLocals, code, handlers, attributes⟩

def decode (content : List UInt8) : Except FormatError MethodBody :=
  match decodeFront content with
  | .error error => .error error
  | .ok (body, []) => .ok body
  | .ok _ => .error .trailingInCode

def encode (b : MethodBody) : Except EncodeError (List UInt8) := do
  let length ← length32 .codeTooLarge b.code
  let attributes ← Attribute.encodeAll b.attributes
  return bytes16 b.maxStack ++ (bytes16 b.maxLocals ++ (length ++ (b.code ++
    (count16 b.handlers.length ++ (b.handlers.flatMap Handler.encode ++ attributes)))))

end MethodBody

end Registrar
