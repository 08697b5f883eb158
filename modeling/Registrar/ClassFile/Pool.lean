import Registrar.ClassFile.Constant

/-!
# The constant pool

* `ConstantPool.decode`, `ConstantPool.encode` : the binary form;
* `get`, `utf8`, `className` : what an index refers to;
* `utf8Index`, `classIndex`, `nameAndTypeIndex`, `methodRefIndex` : the index of a constant, which
  is appended when the pool does not hold it. These run in `Interning`, which keeps the entries
  appended before a failure.
-/

namespace Registrar

inductive PoolError where
  | indexOutOfRange (index : UInt16)
  | notUtf8 (index : UInt16)
  | notClass (index : UInt16)
  | full
  deriving DecidableEq, Repr

def PoolError.message : PoolError → String
  | .indexOutOfRange index => s!"constant pool index {index.toNat} out of range"
  | .notUtf8 index => s!"constant pool entry {index.toNat} is not utf8"
  | .notClass index => s!"constant pool entry {index.toNat} is not a class"
  | .full => "constant pool is full"

/-- The entries of a constant pool. Indices count from 0, where an unusable entry stands. -/
structure ConstantPool where
  entries : Array Constant
  deriving DecidableEq, Repr, Inhabited

namespace ConstantPool

/-! ## Binary form -/

/-- Appends a decoded constant; a wide one is followed by an unusable entry. -/
def appendDecoded (entries : Array Constant) (entry : Constant) : Array Constant :=
  if entry.isWide then (entries.push entry).push .unusable else entries.push entry

theorem size_lt_appendDecoded (entries : Array Constant) (entry : Constant) :
    entries.size < (appendDecoded entries entry).size := by
  unfold appendDecoded
  split <;> simp only [Array.size_push] <;> omega

def decodeOnto (count : Nat) (entries : Array Constant) (input : List UInt8) :
    Except FormatError (Array Constant × List UInt8) :=
  if entries.size < count then
    match Constant.decode input with
    | .error error => .error error
    | .ok (entry, rest) => decodeOnto count (appendDecoded entries entry) rest
  else .ok (entries, input)
termination_by count - entries.size
decreasing_by
  have := size_lt_appendDecoded entries entry
  omega

/-- Reads a pool: a count of entries, then constants until the entries are there. A wide constant
may not run past the count, and the count is at least 1. -/
def decode : Decoder ConstantPool := do
  let count ← Decoder.u16
  let entries ← (decodeOnto count.toNat #[.unusable] : Decoder (Array Constant))
  if entries.size = count.toNat then return ⟨entries⟩
  else Decoder.fail (.wideOverrun count)

def encode (pool : ConstantPool) : List UInt8 :=
  count16 pool.entries.size ++ pool.entries.toList.flatMap Constant.encode

/-! ## Lookup -/

def get (pool : ConstantPool) (index : UInt16) : Except PoolError Constant :=
  match pool.entries[index.toNat]? with
  | some entry => .ok entry
  | none => .error (.indexOutOfRange index)

def utf8 (pool : ConstantPool) (index : UInt16) : Except PoolError String :=
  match pool.get index with
  | .ok (.utf8 value _) => .ok value
  | .ok _ => .error (.notUtf8 index)
  | .error error => .error error

def className (pool : ConstantPool) (index : UInt16) : Except PoolError String :=
  match pool.get index with
  | .ok (.classRef name) => pool.utf8 name
  | .ok _ => .error (.notClass index)
  | .error error => .error error

/-! ## Interning -/

/-- A computation that may append to a pool. The pool after a failure holds what was appended
before it. -/
abbrev Interning := EStateM PoolError ConstantPool

def isText (text : String) : Constant → Bool
  | .utf8 value _ => value == text
  | _ => false

def maxEntries : Nat := 65535

def push (entry : Constant) : Interning UInt16 := fun pool =>
  if pool.entries.size < maxEntries then
    .ok (UInt16.ofNat pool.entries.size) ⟨pool.entries.push entry⟩
  else .error .full pool

/-- The index of the first entry that satisfies `same`, or of `entry`, appended. -/
def findOrPush (same : Constant → Bool) (entry : Constant) : Interning UInt16 := fun pool =>
  match pool.entries.findIdx? same with
  | some index => .ok (UInt16.ofNat index) pool
  | none => push entry pool

def utf8Index (text : String) : Interning UInt16 :=
  findOrPush (isText text) (.ofText text)

def indexOf (entry : Constant) : Interning UInt16 :=
  findOrPush (· == entry) entry

def classIndex (name : String) : Interning UInt16 := do
  let name ← utf8Index name
  indexOf (.classRef name)

def nameAndTypeIndex (name descriptor : String) : Interning UInt16 := do
  let name ← utf8Index name
  let descriptor ← utf8Index descriptor
  indexOf (.nameAndType name descriptor)

/-- The index of a reference to a method of the class, or of the interface, `owner`. -/
def methodRefIndex (owner name descriptor : String) (interface : Bool) : Interning UInt16 := do
  let owner ← classIndex owner
  let member ← nameAndTypeIndex name descriptor
  indexOf (if interface then .interfaceMethodRef owner member else .methodRef owner member)

end ConstantPool

end Registrar
