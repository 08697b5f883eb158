import Registrar.Binary.Decoder

/-!
# Instructions

* `Instruction` : one instruction, with the distances that branches and switches hold decoded;
* `Instruction.length?` : how many bytes the instruction at the front of some code takes;
* `Instruction.decode`, `Instruction.encode` : its binary form, which depends on its offset, because
  the tables of a switch start at a multiple of four;
* `Placed.decodeAll` : the instructions of a whole code, each at its offset.
-/

namespace Registrar

inductive InstructionError where
  | invalidLength (offset : Nat)
  | unsupportedOpcode (opcode : UInt8)
  /-- The bounds of a table switch do not span a possible number of entries. -/
  | invalidTableRange
  | invalidLookupPairs
  | missingWideOpcode
  | shortOperand16
  | shortOperand32
  deriving DecidableEq, Repr

def InstructionError.message : InstructionError → String
  | .invalidLength offset => s!"invalid bytecode length at offset {offset}"
  | .unsupportedOpcode opcode =>
    "unsupported opcode 0x" ++ String.ofList [Nat.digitChar (opcode.toNat / 16),
      Nat.digitChar (opcode.toNat % 16)]
  | .invalidTableRange => "invalid tableswitch range"
  | .invalidLookupPairs => "invalid lookupswitch pairs"
  | .missingWideOpcode => "missing wide opcode"
  | .shortOperand16 => "bytecode u16 out of bounds"
  | .shortOperand32 => "bytecode u32 out of bounds"

namespace Opcode

def aload0 : UInt8 := 0x2a
def pop : UInt8 := 0x57
def pop2 : UInt8 := 0x58
def dup : UInt8 := 0x59
def tableSwitch : UInt8 := 0xaa
def lookupSwitch : UInt8 := 0xab
def returnVoid : UInt8 := 0xb1
def invokeVirtual : UInt8 := 0xb6
def invokeSpecial : UInt8 := 0xb7
def invokeStatic : UInt8 := 0xb8
def invokeInterface : UInt8 := 0xb9
def newObject : UInt8 := 0xbb
def wide : UInt8 := 0xc4
def iinc : UInt8 := 0x84

def isReturn (opcode : UInt8) : Bool := 0xac ≤ opcode && opcode ≤ 0xb1

def isBranch (opcode : UInt8) : Bool :=
  (0x99 ≤ opcode && opcode ≤ 0xa8) || opcode == 0xc6 || opcode == 0xc7

def isWideBranch (opcode : UInt8) : Bool := opcode == 0xc8 || opcode == 0xc9

/-- The length of an instruction whose length does not depend on its operands. -/
def fixedLength? (opcode : UInt8) : Option Nat :=
  if opcode ≤ 0x0f then some 1
  else if opcode = 0x10 then some 2
  else if opcode = 0x11 then some 3
  else if opcode = 0x12 then some 2
  else if opcode ≤ 0x14 then some 3
  else if opcode ≤ 0x19 then some 2
  else if opcode ≤ 0x35 then some 1
  else if opcode ≤ 0x3a then some 2
  else if opcode ≤ 0x83 then some 1
  else if opcode = 0x84 then some 3
  else if opcode ≤ 0x98 then some 1
  else if opcode ≤ 0xa8 then some 3
  else if opcode = 0xa9 then some 2
  else if opcode ≤ 0xab then none
  else if opcode ≤ 0xb1 then some 1
  else if opcode ≤ 0xb8 then some 3
  else if opcode ≤ 0xba then some 5
  else if opcode = 0xbb then some 3
  else if opcode = 0xbc then some 2
  else if opcode = 0xbd then some 3
  else if opcode ≤ 0xbf then some 1
  else if opcode ≤ 0xc1 then some 3
  else if opcode ≤ 0xc3 then some 1
  else if opcode = 0xc4 then none
  else if opcode = 0xc5 then some 4
  else if opcode ≤ 0xc7 then some 3
  else if opcode ≤ 0xc9 then some 5
  else if opcode = 0xca then some 1
  else if opcode ≤ 0xfd then none
  else some 1

end Opcode

inductive Instruction where
  /-- An instruction that holds no distance, with the bytes of its operands. -/
  | plain (opcode : UInt8) (operands : List UInt8)
  | branch (opcode : UInt8) (distance : Int16)
  | wideBranch (opcode : UInt8) (distance : Int32)
  | tableSwitch (fallback low high : Int32) (distances : List Int32)
  | lookupSwitch (fallback count : Int32) (cases : List (Int32 × Int32))
  deriving DecidableEq, Repr, Inhabited

namespace Instruction

/-- How many bytes stand between the opcode of a switch at `offset` and its tables. -/
def padding (offset : Nat) : Nat := (4 - (offset + 1) % 4) % 4

def operand16? : List UInt8 → Except InstructionError UInt16
  | a :: b :: _ => .ok (UInt16.ofNat (a.toNat * 256 + b.toNat))
  | _ => .error .shortOperand16

def int32? : List UInt8 → Option Int32
  | a :: b :: c :: d :: _ =>
    some (UInt32.ofNat (((a.toNat * 256 + b.toNat) * 256 + c.toNat) * 256 + d.toNat)).toInt32
  | _ => none

/-- The signed 32-bit values that bytes hold, onto `found`, which holds the earlier ones, the last
first. -/
def int32sOnto (found : List Int32) : List UInt8 → List Int32
  | a :: b :: c :: d :: rest =>
    int32sOnto ((UInt32.ofNat (((a.toNat * 256 + b.toNat) * 256 + c.toNat) * 256 +
      d.toNat)).toInt32 :: found) rest
  | _ => found.reverse

def int32s (bytes : List UInt8) : List Int32 := int32sOnto [] bytes

/-- Consecutive values in pairs, onto `found`, which holds the earlier pairs, the last first. -/
def pairsOnto (found : List (Int32 × Int32)) : List Int32 → List (Int32 × Int32)
  | key :: distance :: rest => pairsOnto ((key, distance) :: found) rest
  | _ => found.reverse

def bytesOfInt32 (value : Int32) : List UInt8 := bytes32 value.toUInt32

/-! ## Length -/

/-- The length of a table switch at `offset`, from the bytes at its opcode on. -/
def tableSwitchLength? (offset : Nat) (bytes : List UInt8) : Except InstructionError Nat :=
  let base := 1 + padding offset
  match int32? (bytes.drop (base + 4)), int32? (bytes.drop (base + 8)) with
  | some low, some high =>
    let count := high.toInt - low.toInt + 1
    if 0 ≤ count ∧ count < 0x80000000 then .ok (base + 12 + count.toNat * 4)
    else .error .invalidTableRange
  | _, _ => .error .shortOperand32

/-- The length of a lookup switch at `offset`, from the bytes at its opcode on. -/
def lookupSwitchLength? (offset : Nat) (bytes : List UInt8) : Except InstructionError Nat :=
  let base := 1 + padding offset
  match int32? (bytes.drop (base + 4)) with
  | some count =>
    if 0 ≤ count.toInt then .ok (base + 8 + count.toInt.toNat * 8) else .error .invalidLookupPairs
  | none => .error .shortOperand32

/-- The length of a widened instruction, from the bytes at its opcode on. -/
def wideLength? : List UInt8 → Except InstructionError Nat
  | _ :: opcode :: _ => .ok (if opcode = Opcode.iinc then 6 else 4)
  | _ => .error .missingWideOpcode

/-- How many bytes the instruction at `offset` takes, from the bytes at its opcode on. They need
not all be there. -/
def length? (offset : Nat) : List UInt8 → Except InstructionError Nat
  | [] => .error (.invalidLength offset)
  | opcode :: rest =>
    if opcode = Opcode.tableSwitch then tableSwitchLength? offset (opcode :: rest)
    else if opcode = Opcode.lookupSwitch then lookupSwitchLength? offset (opcode :: rest)
    else if opcode = Opcode.wide then wideLength? (opcode :: rest)
    else
      match Opcode.fixedLength? opcode with
      | some length => .ok length
      | none => .error (.unsupportedOpcode opcode)

/-! ## Binary form -/

def ofBytes (offset : Nat) : List UInt8 → Instruction
  | [] => default
  | opcode :: operands =>
    if Opcode.isBranch opcode then
      match operands with
      | [a, b] => .branch opcode (UInt16.ofNat (a.toNat * 256 + b.toNat)).toInt16
      | _ => .plain opcode operands
    else if Opcode.isWideBranch opcode then
      match int32? operands with
      | some distance => .wideBranch opcode distance
      | none => .plain opcode operands
    else if opcode = Opcode.tableSwitch then
      match int32s (operands.drop (padding offset)) with
      | fallback :: low :: high :: distances => .tableSwitch fallback low high distances
      | _ => .plain opcode operands
    else if opcode = Opcode.lookupSwitch then
      match int32s (operands.drop (padding offset)) with
      | fallback :: count :: cases => .lookupSwitch fallback count (pairsOnto [] cases)
      | _ => .plain opcode operands
    else .plain opcode operands

def decode (offset : Nat) (bytes : List UInt8) :
    Except InstructionError (Instruction × List UInt8) :=
  match length? offset bytes with
  | .error error => .error error
  | .ok length =>
    let (front, rest) := bytes.splitAt length
    if 0 < length ∧ front.length = length then .ok (ofBytes offset front, rest)
    else .error (.invalidLength offset)

def encode (offset : Nat) : Instruction → List UInt8
  | .plain opcode operands => opcode :: operands
  | .branch opcode distance => opcode :: bytes16 distance.toUInt16
  | .wideBranch opcode distance => opcode :: bytesOfInt32 distance
  | .tableSwitch fallback low high distances =>
    Opcode.tableSwitch :: (List.replicate (padding offset) 0 ++ (bytesOfInt32 fallback ++
      (bytesOfInt32 low ++ (bytesOfInt32 high ++ distances.flatMap bytesOfInt32))))
  | .lookupSwitch fallback count cases =>
    Opcode.lookupSwitch :: (List.replicate (padding offset) 0 ++ (bytesOfInt32 fallback ++
      (bytesOfInt32 count ++ cases.flatMap fun c => bytesOfInt32 c.1 ++ bytesOfInt32 c.2)))

def size (offset : Nat) : Instruction → Nat
  | .plain _ operands => 1 + operands.length
  | .branch _ _ => 3
  | .wideBranch _ _ => 5
  | .tableSwitch _ _ _ distances => 13 + padding offset + 4 * distances.length
  | .lookupSwitch _ _ cases => 9 + padding offset + 8 * cases.length

def opcode : Instruction → UInt8
  | .plain opcode _ => opcode
  | .branch opcode _ => opcode
  | .wideBranch opcode _ => opcode
  | .tableSwitch .. => Opcode.tableSwitch
  | .lookupSwitch .. => Opcode.lookupSwitch

def isReturn (i : Instruction) : Bool := Opcode.isReturn i.opcode

theorem length_flatMap_const {α : Type} (f : α → List UInt8) (n : Nat) (h : ∀ x, (f x).length = n)
    (l : List α) : (l.flatMap f).length = n * l.length := by
  induction l with
  | nil => simp
  | cons x l ih =>
    rw [List.flatMap_cons, List.length_append, ih, h, List.length_cons, Nat.mul_succ]
    omega

@[simp] theorem length_bytesOfInt32 (v : Int32) : (bytesOfInt32 v).length = 4 := rfl

theorem length_encode (offset : Nat) (i : Instruction) :
    (i.encode offset).length = i.size offset := by
  cases i with
  | plain => simp [encode, size, Nat.add_comm]
  | branch => rfl
  | wideBranch => rfl
  | tableSwitch f l h ds =>
    simp only [encode, size, List.length_cons, List.length_append, List.length_replicate,
      length_bytesOfInt32, length_flatMap_const bytesOfInt32 4 length_bytesOfInt32]
    omega
  | lookupSwitch f c cs =>
    simp only [encode, size, List.length_cons, List.length_append, List.length_replicate,
      length_bytesOfInt32,
      length_flatMap_const (fun c : Int32 × Int32 => bytesOfInt32 c.1 ++ bytesOfInt32 c.2) 8
        (fun _ => rfl)]
    omega

theorem length_rest_lt {offset : Nat} {bytes rest : List UInt8} {i : Instruction}
    (h : decode offset bytes = .ok (i, rest)) : rest.length < bytes.length := by
  unfold decode at h
  split at h
  · simp at h
  · next length _ =>
    simp only [List.splitAt_eq] at h
    split at h
    · next hl =>
      simp only [Except.ok.injEq, Prod.mk.injEq] at h
      rw [← h.2, List.length_drop]
      have := hl.2
      rw [List.length_take] at this
      omega
    · simp at h

end Instruction

structure Placed where
  offset : Nat
  instruction : Instruction
  deriving DecidableEq, Repr, Inhabited

namespace Placed

/-- Splits bytes that start at `offset` into instructions, onto `found`, which holds the earlier
ones, the last first. -/
def decodeOnto (offset : Nat) (found : List Placed) (bytes : List UInt8) :
    Except InstructionError (List Placed) :=
  if bytes.isEmpty then .ok found.reverse
  else
    match _taken : Instruction.decode offset bytes with
    | .error error => .error error
    | .ok (i, rest) =>
      decodeOnto (offset + i.size offset) (⟨offset, i⟩ :: found) rest
termination_by bytes.length
decreasing_by exact Instruction.length_rest_lt (by assumption)

def decodeAll (code : List UInt8) : Except InstructionError (List Placed) := decodeOnto 0 [] code

end Placed

end Registrar
