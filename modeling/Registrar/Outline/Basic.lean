import Registrar.Outline.Attribute

/-!
# Outlines

The outline of a class file: its constants, its header and its methods, without their attributes.
`Outline.read` takes a second, independent look at a class file. It is laxer than the full decoder
where the full decoder checks indices and lengths, and stricter where it reads into attributes.
-/

namespace Registrar

structure OutlineMethod where
  access : UInt16
  name : UInt16
  descriptor : UInt16
  deriving DecidableEq, Repr

structure Outline where
  constants : Array OutlineConstant
  access : UInt16
  thisClass : UInt16
  superClass : UInt16
  interfaces : List UInt16
  methods : List OutlineMethod
  deriving DecidableEq, Repr

namespace OutlineReader

def constant : OutlineReader OutlineConstant := do
  let tag ← u8
  match tag with
  | 1 => do
    let length ← u16
    return .utf8 (OutlineText.decode (← block length.toNat))
  | 3 => return .integer (← u32).toInt32
  | 4 => return .float (fromBytes32 (← block 4))
  | 5 => return .long (← u64).toInt64
  | 6 => return .double (fromBytes64 (← block 8))
  | 7 => return .classRef (← u16)
  | 8 => return .string (← u16)
  | 9 => return .fieldRef (← u16) (← u16)
  | 10 => return .methodRef (← u16) (← u16)
  | 11 => return .interfaceMethodRef (← u16) (← u16)
  | 12 => return .nameAndType (← u16) (← u16)
  | 15 => return .methodHandle (← u8) (← u16)
  | 16 => return .methodType (← u16)
  | 17 => return .dynamic (← u16) (← u16)
  | 18 => return .invokeDynamic (← u16) (← u16)
  | 19 => return .moduleRef (← u16)
  | 20 => return .packageRef (← u16)
  | tag => fail (.unknownTag tag)
where
  fromBytes32 (bytes : List UInt8) : UInt32 :=
    UInt32.ofNat (bytes.foldl (fun n b => n * 256 + b.toNat) 0)
  fromBytes64 (bytes : List UInt8) : UInt64 :=
    UInt64.ofNat (bytes.foldl (fun n b => n * 256 + b.toNat) 0)

def isWide : OutlineConstant → Bool
  | .long _ => true
  | .double _ => true
  | _ => false

/-- Reads constants onto `found` until there are `count` slots. The slot behind a wide constant is
left out where it would be one too many. -/
def constantsOnto (count : Nat) (found : Array OutlineConstant) (c : Cursor) :
    Except OutlineError (Array OutlineConstant × Cursor) :=
  if found.size < count then
    match constant c with
    | .error error => .error error
    | .ok (entry, c) =>
      if isWide entry ∧ found.size + 1 < count then
        constantsOnto count ((found.push entry).push .empty) c
      else constantsOnto count (found.push entry) c
  else .ok (found, c)
termination_by count - found.size
decreasing_by all_goals simp only [Array.size_push]; omega

/-- Reads the constants. A count of 0 gives none. -/
def constants : OutlineReader (Array OutlineConstant) := do
  let count ← u16
  if count = 0 then return #[]
  else constantsOnto count.toNat #[.empty]

def skipField (depth : Nat) (constants : Constants) : OutlineReader Unit := do
  skip16 3
  allAttributes depth constants

def method (depth : Nat) (constants : Constants) : OutlineReader OutlineMethod := do
  let access ← u16
  let name ← u16
  let descriptor ← u16
  allAttributes depth constants
  return ⟨access, name, descriptor⟩

/-- Reads an outline off the front of the bytes, nested at most `depth` deep. -/
def outline (depth : Nat) : OutlineReader Outline := do
  let _ ← u32
  skip16 2
  let constants ← constants
  let access ← u16
  let thisClass ← u16
  let superClass ← u16
  let interfaces ← collect16 u16
  counted16 (skipField depth constants)
  let methods ← collect16 (method depth constants)
  allAttributes depth constants
  return ⟨constants, access, thisClass, superClass, interfaces, methods⟩

end OutlineReader

namespace Outline

/-- Reads the outline of a class file, which must take all of the bytes. Nothing can be nested
deeper than there are bytes. -/
def read (data : List UInt8) : Except OutlineError Outline :=
  match OutlineReader.outline (data.length + 1) (Cursor.start data) with
  | .error error => .error error
  | .ok (outline, c) =>
    if c.rest.isEmpty then .ok outline else .error (.trailing data.length c.offset)

end Outline

end Registrar
