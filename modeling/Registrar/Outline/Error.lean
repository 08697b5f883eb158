import Registrar.Decimal.Shortest

/-!
# Why an outline is refused

The reasons for which the outline reader gives up, with their texts. A constant that is quoted in a
text is written with the names of its fields.
-/

namespace Registrar

inductive OutlineConstant where
  /-- No constant: index 0, or the second slot of a 64-bit constant. -/
  | empty
  | utf8 (value : String)
  | integer (value : Int32)
  | float (bits : UInt32)
  | long (value : Int64)
  | double (bits : UInt64)
  | classRef (name : UInt16)
  | string (text : UInt16)
  | fieldRef (owner member : UInt16)
  | methodRef (owner member : UInt16)
  | interfaceMethodRef (owner member : UInt16)
  | nameAndType (name descriptor : UInt16)
  | methodHandle (kind : UInt8) (reference : UInt16)
  | methodType (descriptor : UInt16)
  | dynamic (bootstrap member : UInt16)
  | invokeDynamic (bootstrap member : UInt16)
  | moduleRef (name : UInt16)
  | packageRef (name : UInt16)
  deriving DecidableEq, Repr, Inhabited

namespace OutlineConstant

def record (name : String) (fields : List (String × String)) : String :=
  name ++ " \x7b " ++ ", ".intercalate (fields.map fun f => f.1 ++ ": " ++ f.2) ++ " \x7d"

def index (name : String) (value : UInt16) : String × String := (name, toString value.toNat)

def describe : OutlineConstant → String
  | .empty => "Empty"
  | .utf8 value => record "Utf8" [("value", value)]
  | .integer value => record "Integer" [("value", toString value.toInt)]
  | .float bits => record "Float" [("value", Decimal.general (Decimal.ofFloat32Bits bits))]
  | .long value => record "Long" [("value", toString value.toInt)]
  | .double bits => record "Double" [("value", Decimal.general (Decimal.ofFloat64Bits bits))]
  | .classRef name => record "Class" [index "name_index" name]
  | .string text => record "String" [index "string_index" text]
  | .fieldRef owner member => reference "Fieldref" owner member
  | .methodRef owner member => reference "Methodref" owner member
  | .interfaceMethodRef owner member => reference "InterfaceMethodref" owner member
  | .nameAndType name descriptor =>
    record "NameAndType" [index "name_index" name, index "descriptor_index" descriptor]
  | .methodHandle kind target =>
    record "MethodHandle"
      [("reference_kind", toString kind.toNat), index "reference_index" target]
  | .methodType descriptor => record "MethodType" [index "descriptor_index" descriptor]
  | .dynamic bootstrap member => computed "Dynamic" bootstrap member
  | .invokeDynamic bootstrap member => computed "InvokeDynamic" bootstrap member
  | .moduleRef name => record "Module" [index "name_index" name]
  | .packageRef name => record "Package" [index "name_index" name]
where
  reference (name : String) (owner member : UInt16) : String :=
    record name [index "class_index" owner, index "name_and_type_index" member]
  computed (name : String) (bootstrap member : UInt16) : String :=
    record name
      [index "bootstrap_method_attr_index" bootstrap, index "name_and_type_index" member]

end OutlineConstant

inductive OutlineError where
  | shortInteger (position size : Nat)
  /-- A block of bytes would stop at `stop`, past the end at `size`. -/
  | shortBlock (stop size : Nat)
  | trailing (size position : Nat)
  | unknownTag (tag : UInt8)
  | missingName (index : UInt16)
  | nameNotText (found : OutlineConstant)
  | unknownTarget (kind : UInt8)
  | unknownElement (tag : UInt8)
  | unknownFrame (kind : UInt8)
  | unknownVerification (tag : UInt8)
  | unknownAttribute (name : String)
  deriving DecidableEq, Repr

namespace OutlineError

def message (e : OutlineError) : String :=
  "I/O Error: " ++
    match e with
    | .shortInteger position size =>
      s!"overflow : attempt to read from {position} whereas len is {size}"
    | .shortBlock stop size => s!"Index out of bounds: {stop} of {size}"
    | .trailing size position =>
      s!"Not all was read : data.len() is {size}, start_from is {position}"
    | .unknownTag tag => s!"unmatched tag: {tag.toNat}"
    | .missingName index => s!"element not found at index {index.toNat}"
    | .nameNotText found => "element type is not Uint8 but " ++ found.describe
    | .unknownTarget kind => s!"Invalid target_type: {kind.toNat}"
    | .unknownElement tag => s!"Unsupported element tag: {tag.toNat}"
    | .unknownFrame kind => s!"Unsupported frame_type: {kind.toNat}"
    | .unknownVerification tag => s!"tag {tag.toNat} is not valid"
    | .unknownAttribute name => "unmatched attribute: " ++ name

/-- Whether the only fault is an attribute of unknown layout. -/
def isUnknownAttribute : OutlineError → Bool
  | .unknownAttribute _ => true
  | _ => false

end OutlineError

end Registrar
