import Registrar.Code.Insert

/-!
# Insertions with checked arithmetic

Insertions as a program on arrays of bytes makes them: instructions are slices between offsets, operands are read at
indices, and lengths and distances are subtracted from each other. Here each index, slice, subtraction and conversion
is checked, and one that is out of range ends the computation with a fault of its own (`Halt`), apart from the errors
that are reported.

* `Guarded.offsetsFrom`, `Guarded.placeFrom`, `Guarded.emitFrom` : the three passes over the instructions of a code;
* `Guarded.relocateBytes` : one instruction, given as the bytes of its slice;
* `Guarded.relocateVariable`, `Guarded.stackMap` : the entries of tables that take arithmetic;
* `Guarded.insert`, `Guarded.rewrite` : insertions into a method body, and into the bytes of one.
-/

namespace Registrar

/-- What ends a computation that does not give a value. -/
inductive Halt where
  /-- An index or a slice that is not inside the bytes. -/
  | outOfRange
  /-- A number that its unsigned type does not hold. -/
  | overflow
  /-- An assertion that does not hold. -/
  | assertion
  /-- An error that is reported. -/
  | refused (cause : RelocationError)
  deriving DecidableEq, Repr

/-- A computation that checks its indices, slices and numbers. -/
abbrev Guarded := Except Halt

namespace Guarded

/-! ## Checked steps -/

/-- An outcome of a computation that can only fail with a reported error. -/
def report {α : Type} (x : Except RelocationError α) : Guarded α := x.mapError .refused

/-- Reports the errors of a part under its heading. -/
def inside {α : Type} (heading : RelocationError → RelocationError) (x : Guarded α) : Guarded α :=
  x.mapError fun
    | .refused cause => .refused (heading cause)
    | halt => halt

/-- The byte at an index. -/
def byteAt (bytes : List UInt8) (i : Nat) : Guarded UInt8 :=
  match bytes[i]? with
  | some b => .ok b
  | none => .error .outOfRange

/-- The bytes from one index up to another. -/
def slice (bytes : List UInt8) (start stop : Nat) : Guarded (List UInt8) :=
  if start ≤ stop ∧ stop ≤ bytes.length then .ok ((bytes.take stop).drop start) else .error .outOfRange

/-- The signed 16-bit value at an index. -/
def int16At (bytes : List UInt8) (i : Nat) : Guarded Int16 :=
  match bytes.drop i with
  | a :: b :: _ => .ok (UInt16.ofNat (a.toNat * 256 + b.toNat)).toInt16
  | _ => .error .outOfRange

/-- The signed 32-bit value at an index. -/
def int32At (bytes : List UInt8) (i : Nat) : Guarded Int32 :=
  match Instruction.int32? (bytes.drop i) with
  | some v => .ok v
  | none => .error .outOfRange

/-- The difference of two unsigned numbers. -/
def minus (a b : Nat) : Guarded Nat := if b ≤ a then .ok (a - b) else .error .overflow

/-- A signed number as an unsigned one. -/
def natural (v : Int) : Guarded Nat := if 0 ≤ v then .ok v.toNat else .error .overflow

/-- A number as a byte. -/
def byte (n : Nat) : Guarded UInt8 := if n < 256 then .ok (UInt8.ofNat n) else .error .overflow

/-- Takes a value off the front of bytes. -/
def read {α : Type} (decode : Decoder α) (input : List UInt8) : Guarded (α × List UInt8) :=
  report ((decode input).mapError .format)

/-! ## Instructions -/

/-- The length of the instruction at an offset. -/
def lengthAt (code : List UInt8) (offset : Nat) : Guarded Nat := do
  let _ ← byteAt code offset
  report ((Instruction.length? offset (code.drop offset)).mapError .instruction)

/-- The offsets of the instructions from `offset` on. -/
def offsetsFrom (code : List UInt8) (offset : Nat) : Guarded (List Nat) :=
  if offset < code.length then
    match lengthAt code offset with
    | .error halt => .error halt
    | .ok length =>
      if length = 0 ∨ code.length < offset + length then
        .error (.refused (.instruction (.invalidLength offset)))
      else
        match offsetsFrom code (offset + length) with
        | .error halt => .error halt
        | .ok offsets => .ok (offset :: offsets)
  else .ok []
termination_by code.length - offset

/-- The length that an instruction has at a new offset: only the padding of a switch changes. -/
def relocatedLength (code : List UInt8) (old length new : Nat) : Guarded Nat := do
  let opcode ← byteAt code old
  if opcode = Opcode.tableSwitch ∨ opcode = Opcode.lookupSwitch then
    let unpadded ← minus length (Instruction.padding old)
    return unpadded + Instruction.padding new
  else return length

/-- The offset behind an instruction: that of the next one, or the end of the code. -/
def next (code : List UInt8) (rest : List Nat) : Nat := rest.head?.getD code.length

/-- Places the instructions at the given offsets, from `cursor` on. Gives the places and the new length. -/
def placeFrom (groups : InsertionGroups) (code : List UInt8) (cursor : Nat) :
    List Nat → Guarded (List Slot × Nat)
  | [] => .ok ([], cursor)
  | offset :: rest => do
    let group := groups.getD offset []
    let position := cursor + Insertion.groupLength group
    let length ← minus (next code rest) offset
    let size ← relocatedLength code offset length position
    let (slots, stop) ← placeFrom groups code (position + size) rest
    return (⟨offset, cursor, position, group.any (·.capturesTargets)⟩ :: slots, stop)

section
variable (layout : Layout) (old new : Nat) (instruction : List UInt8)

/-- The distance from `new` to the new place of what lay `distance` from `old`. -/
def relative (distance : Int) : Guarded Int := report (Instruction.relocateDistance layout old new distance)

/-- The jump of a switch at an index, relocated. -/
def jumpAt (i : Nat) : Guarded Int32 := do
  let distance ← int32At instruction i
  let moved ← relative layout old new distance.toInt
  return Int32.ofInt moved

/-- Consecutive jumps from an index on, relocated. -/
def jumpsAt : Nat → Nat → Guarded (List Int32)
  | 0, _ => .ok []
  | n + 1, i => do
    let jump ← jumpAt layout old new instruction i
    let jumps ← jumpsAt n (i + 4)
    return jump :: jumps

/-- Consecutive keys with their jumps from an index on, the jumps relocated. -/
def casesAt : Nat → Nat → Guarded (List (Int32 × Int32))
  | 0, _ => .ok []
  | n + 1, i => do
    let key ← int32At instruction i
    let jump ← jumpAt layout old new instruction (i + 4)
    let cases ← casesAt n (i + 8)
    return (key, jump) :: cases

/-- The bytes at `new` that stand for the bytes of an instruction at `old`. -/
def relocateBytes : Guarded (List UInt8) := do
  let opcode ← byteAt instruction 0
  if Opcode.isBranch opcode then
    let distance ← int16At instruction 1
    let moved ← relative layout old new distance.toInt
    if moved < -0x8000 then throw (.refused (.distance16 false))
    else if 0x8000 ≤ moved then throw (.refused (.distance16 true))
    else return (Instruction.branch opcode (Int16.ofInt moved)).encode new
  else if Opcode.isWideBranch opcode then
    let distance ← int32At instruction 1
    let moved ← relative layout old new distance.toInt
    if moved < -0x80000000 then throw (.refused (.distance32 false))
    else if 0x80000000 ≤ moved then throw (.refused (.distance32 true))
    else return (Instruction.wideBranch opcode (Int32.ofInt moved)).encode new
  else if opcode = Opcode.tableSwitch then
    let base := 1 + Instruction.padding old
    let fallback ← jumpAt layout old new instruction base
    let low ← int32At instruction (base + 4)
    let high ← int32At instruction (base + 8)
    let count ← natural (high.toInt - low.toInt + 1)
    let distances ← jumpsAt layout old new instruction count (base + 12)
    return (Instruction.tableSwitch fallback low high distances).encode new
  else if opcode = Opcode.lookupSwitch then
    let base := 1 + Instruction.padding old
    let fallback ← jumpAt layout old new instruction base
    let count ← int32At instruction (base + 4)
    let pairs ← natural count.toInt
    let cases ← casesAt layout old new instruction pairs (base + 8)
    return (Instruction.lookupSwitch fallback count cases).encode new
  else return instruction

end

/-- The moved instructions at the given offsets, behind `output`. Each stands where the output has come to. -/
def emitFrom (groups : InsertionGroups) (layout : Layout) (code output : List UInt8) :
    List Nat → Guarded (List UInt8)
  | [] => .ok output
  | offset :: rest => do
    let output := output ++ Insertion.groupBytes (groups.getD offset [])
    let instruction ← slice code offset (next code rest)
    let moved ← inside (.at offset) (relocateBytes layout offset output.length instruction)
    emitFrom groups layout code (output ++ moved) rest

/-! ## Tables -/

/-- Reads and moves `n` entries. -/
def entries {α : Type} (decode : Decoder α) (move : α → Guarded (List UInt8)) :
    Nat → List UInt8 → Guarded (List UInt8)
  | 0, _ => .ok []
  | n + 1, input => do
    let (entry, rest) ← read decode input
    let bytes ← move entry
    let more ← entries decode move n rest
    return bytes ++ more

/-- Moves a counted table. -/
def table {α : Type} (decode : Decoder α) (move : α → Guarded (List UInt8)) (content : List UInt8) :
    Guarded (List UInt8) := do
  let (count, rest) ← read Decoder.u16 content
  let bytes ← entries decode move count.toNat rest
  return bytes16 count ++ bytes

/-- Moves a local variable. The new length is the difference of the new ends. -/
def relocateVariable (layout : Layout) (v : LocalVariable) : Guarded (List UInt8) := do
  let start ← report (layout.target v.start.toNat)
  let stop ← report (layout.target (v.start.toNat + v.length.toNat))
  let start16 ← report (Layout.narrow start)
  let length ← minus stop start
  let length16 ← report (Layout.narrow length)
  return LocalVariable.encode { v with start := start16, length := length16 }

/-- Reads the frame of a type: its distance and its body. -/
def frame (kind : UInt8) (input : List UInt8) : Guarded ((Nat × FrameBody) × List UInt8) := do
  if kind ≤ 63 then return ((kind.toNat, .same), input)
  else if kind ≤ 127 then
    let distance ← minus kind.toNat 64
    let (item, rest) ← read VerificationType.decode input
    return ((distance, .sameWithItem item), rest)
  else if kind ≤ 246 then throw (.refused (.format (.reservedFrameType kind)))
  else
    let (distance, rest) ← read Decoder.u16 input
    if kind = 247 then
      let (item, rest) ← read VerificationType.decode rest
      return ((distance.toNat, .sameWithItem item), rest)
    else if kind ≤ 250 then
      let count ← minus 251 kind.toNat
      return ((distance.toNat, .chop (UInt8.ofNat count)), rest)
    else if kind = 251 then return ((distance.toNat, .same), rest)
    else if kind ≤ 254 then
      let count ← minus kind.toNat 251
      let (locals, rest) ← read (Decoder.times count VerificationType.decode) rest
      return ((distance.toNat, .append locals), rest)
    else
      let (locals, rest) ← read (Decoder.counted VerificationType.decode) rest
      let (stack, rest) ← read (Decoder.counted VerificationType.decode) rest
      return ((distance.toNat, .full locals stack), rest)

/-- Reads `n` frames. -/
def frames : Nat → List UInt8 → Guarded (List (Nat × FrameBody))
  | 0, _ => .ok []
  | n + 1, input => do
    let (kind, rest) ← read Decoder.u8 input
    let (first, rest) ← frame kind rest
    let more ← frames n rest
    return first :: more

/-- The bytes of a frame at a distance, its types moved. -/
def frameBytes (layout : Layout) (distance : Nat) (body : FrameBody) : Guarded (List UInt8) := do
  let wide ← report (Layout.narrow distance)
  match body with
  | .sameWithItem item =>
    let front ← if distance ≤ 63 then (byte (64 + distance)).map ([·]) else pure (247 :: bytes16 wide)
    let item ← report (item.relocate layout)
    return front ++ item.encode
  | .chop count =>
    let kind ← minus 251 count.toNat
    return UInt8.ofNat kind :: bytes16 wide
  | .append locals =>
    let kind ← byte (251 + locals.length)
    let types ← report (FrameBody.relocateTypes layout locals)
    return kind :: (bytes16 wide ++ types)
  | body => report (body.relocate layout distance)

/-- The distance of an offset from the frame before: the difference to the place behind it. -/
def distanceAfter : Option Nat → Nat → Guarded Nat
  | none, offset => .ok offset
  | some previous, offset => minus offset (previous + 1)

/-- Moves frames and stores them. -/
def emitFrames (layout : Layout) (previous : Option Nat) : List Frame → Guarded (List UInt8)
  | [] => .ok []
  | f :: rest => do
    let offset ← report (layout.target f.offset)
    let distance ← distanceAfter previous offset
    let bytes ← frameBytes layout distance f.body
    let more ← emitFrames layout (some offset) rest
    return bytes ++ more

/-- Moves a stack map. -/
def stackMap (layout : Layout) (content : List UInt8) : Guarded (List UInt8) := do
  let (count, rest) ← read Decoder.u16 content
  let stored ← frames count.toNat rest
  let bytes ← emitFrames layout none (StackMap.place none [] stored)
  return bytes16 count ++ bytes

/-- A nested attribute after the code is moved; `none` if it is dropped. -/
def relocateAttribute (pool : ConstantPool) (layout : Layout) (a : Attribute) : Guarded (Option Attribute) := do
  let name ← report ((pool.utf8 a.name).mapError .pool)
  if name = "LineNumberTable" then
    let content ← report (OffsetTable.relocateLineNumbers layout a.content)
    return some { a with content }
  else if name = "LocalVariableTable" ∨ name = "LocalVariableTypeTable" then
    let content ← table LocalVariable.decode (relocateVariable layout) a.content
    return some { a with content }
  else if name = "StackMapTable" then
    let content ← inside .stackMap (stackMap layout a.content)
    return some { a with content }
  else if name = "RuntimeVisibleTypeAnnotations" ∨ name = "RuntimeInvisibleTypeAnnotations" then return none
  else return some a

/-! ## Bodies -/

/-- Moves the parts of a method body whose instructions stand at the given offsets. -/
def moveParts (groups : InsertionGroups) (layout : Layout) (offsets : List Nat) (body : MethodBody)
    (pool : ConstantPool) : Guarded MethodBody := do
  let output ← emitFrom groups layout body.code [] offsets
  if output.length ≠ layout.newLength then throw .assertion
  let handlers ← report (body.handlers.mapM (·.relocate layout))
  let attributes ← body.attributes.mapM (relocateAttribute pool layout)
  return { body with code := output, handlers, attributes := attributes.filterMap id }

/-- Inserts code into a method body. -/
def insert (body : MethodBody) (insertions : List Insertion) (pool : ConstantPool) : Guarded MethodBody := do
  let offsets ← offsetsFrom body.code 0
  let groups := Insertion.groups insertions
  let (slots, newLength) ← placeFrom groups body.code 0 offsets
  let layout : Layout := ⟨slots, Std.TreeMap.ofList (slots.map fun s => (s.old, s)), body.code.length, newLength⟩
  match Insertion.misplaced? groups layout with
  | some offset => throw (.refused (.insertionOffset offset))
  | none =>
    if MethodBody.maxCodeLength < newLength then throw (.refused (.codeTooLong newLength))
    else moveParts groups layout offsets body pool

/-- Reads a method body and inserts code into it. -/
def rewrite (content : List UInt8) (insertions : List Insertion) (pool : ConstantPool) : Guarded MethodBody := do
  let body ← report ((MethodBody.decode content).mapError .format)
  insert body insertions pool

end Guarded

end Registrar
