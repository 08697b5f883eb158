/-!
# Why bytes are refused

`FormatError` lists every way in which bytes fail to be a class file, a `Code` attribute or one of
the tables inside it. `FormatError.message` is the only place that words them.
-/

namespace Registrar

/-- The parts of a class file whose decoding is reported under a heading of its own. -/
inductive FormatPart where
  | constantPool
  | fields
  | methods
  | classAttributes
  /-- The attributes of a field, passed over. -/
  | skippedFieldAttributes
  | skippedMethodAttributes
  | codeAttribute
  deriving DecidableEq, Repr

def FormatPart.message : FormatPart → String
  | .constantPool => "parse constant pool"
  | .fields => "parse fields"
  | .methods => "parse methods"
  | .classAttributes => "parse class attributes"
  | .skippedFieldAttributes => "skip field attributes"
  | .skippedMethodAttributes => "skip method attributes"
  | .codeAttribute => "parse Code attribute"

inductive FormatError where
  | outOfBounds
  /-- The value would end past the last address of a 64-bit machine. -/
  | lengthOverflow
  | badMagic
  | unsupportedTag (tag : UInt8)
  /-- The pool's count is not the number of slots its constants take. -/
  | wideOverrun (count : UInt16)
  | trailingAfterClass (offset : Nat)
  | trailingInCode
  | unknownVerificationTag (tag : UInt8)
  | reservedFrameType (kind : UInt8)
  | within (part : FormatPart) (cause : FormatError)
  deriving DecidableEq, Repr

def FormatError.message : FormatError → String
  | .outOfBounds => "class file out of bounds"
  | .lengthOverflow => "class file length overflow"
  | .badMagic => "invalid class file magic"
  | .unsupportedTag tag => s!"unsupported constant pool tag: {tag.toNat}"
  | .wideOverrun count => s!"wide constant overruns constant pool count {count.toNat}"
  | .trailingAfterClass offset => s!"trailing bytes after class attributes at {offset}"
  | .trailingInCode => "trailing bytes in Code attribute"
  | .unknownVerificationTag tag => s!"unknown verification type tag {tag.toNat}"
  | .reservedFrameType kind => s!"reserved stack map frame type {kind.toNat}"
  | .within part cause => part.message ++ ": " ++ cause.message

end Registrar
