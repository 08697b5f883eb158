import Registrar.Code.Instruction
import Registrar.ClassFile.Pool
import Std.Data.TreeMap

/-!
# Where instructions go

`Layout.of` computes, for each instruction of a code, where it stands once other code is inserted,
and `Layout.target` sends an old jump target to the new one: to the start of the code inserted
there, when one of the insertions captures targets, and otherwise to the instruction itself.
-/

namespace Registrar

structure Insertion where
  offset : Nat
  bytes : List UInt8
  /-- Whether what pointed at the instruction points at the inserted code from then on. -/
  capturesTargets : Bool
  deriving DecidableEq, Repr

inductive RelocationError where
  | instruction (cause : InstructionError)
  | insertionOffset (offset : Nat)
  | codeTooLong (length : Nat)
  | at (offset : Nat) (cause : RelocationError)
  | negativeTarget
  | notBoundary (offset : Nat)
  /-- A distance does not fit 16 bits: it is too large, or else too small. -/
  | distance16 (tooLarge : Bool)
  /-- A distance does not fit 32 bits: it is too large, or else too small. -/
  | distance32 (tooLarge : Bool)
  | offset16
  /-- A table of the method body is cut off or holds an unknown item. -/
  | format (cause : FormatError)
  | pool (cause : PoolError)
  | stackMap (cause : RelocationError)
  | framesOutOfOrder
  deriving DecidableEq, Repr

def rangeMessage (tooLarge : Bool) : String :=
  if tooLarge then "number too large to fit in target type"
  else "number too small to fit in target type"

def RelocationError.message : RelocationError → String
  | .instruction cause => cause.message
  | .insertionOffset offset => s!"insertion offset {offset} is not an instruction boundary"
  | .codeTooLong length => s!"method code grows to {length} bytes"
  | .at offset cause => s!"relocate instruction at {offset}: " ++ cause.message
  | .negativeTarget => "negative branch target: " ++ rangeMessage false
  | .notBoundary offset => s!"offset {offset} is not an instruction boundary"
  | .distance16 tooLarge => "branch offset exceeds 16 bits: " ++ rangeMessage tooLarge
  | .distance32 tooLarge => "branch offset exceeds 32 bits: " ++ rangeMessage tooLarge
  | .offset16 => "offset exceeds 65535: " ++ rangeMessage true
  | .format cause => cause.message
  | .pool cause => cause.message
  | .stackMap cause => "relocate StackMapTable: " ++ cause.message
  | .framesOutOfOrder => "stack map frames out of order"

structure Slot where
  old : Nat
  inserted : Nat
  position : Nat
  captures : Bool
  deriving DecidableEq, Repr, Inhabited

/-- The insertions at each offset, in list order. -/
abbrev InsertionGroups := Std.TreeMap Nat (List Insertion)

def Insertion.groups (insertions : List Insertion) : InsertionGroups :=
  insertions.foldr (fun i groups => groups.insert i.offset (i :: groups.getD i.offset [])) ∅

def Insertion.groupBytes (group : List Insertion) : List UInt8 := group.flatMap (·.bytes)

def Insertion.groupLength (group : List Insertion) : Nat :=
  group.foldl (fun length i => length + i.bytes.length) 0

structure Layout where
  slots : List Slot
  index : Std.TreeMap Nat Slot
  oldLength : Nat
  newLength : Nat

namespace Layout

/-- Places the instructions from `cursor` on, onto `found`, which holds the earlier ones, the last
first. Gives the places and the new length. -/
def slotsOnto (groups : InsertionGroups) (cursor : Nat) (found : List Slot) :
    List Placed → List Slot × Nat
  | [] => (found.reverse, cursor)
  | p :: rest =>
    let group := groups.getD p.offset []
    let position := cursor + Insertion.groupLength group
    slotsOnto groups (position + p.instruction.size position)
      (⟨p.offset, cursor, position, group.any (·.capturesTargets)⟩ :: found) rest

def of (groups : InsertionGroups) (oldLength : Nat) (code : List Placed) : Layout :=
  let (slots, newLength) := slotsOnto groups 0 [] code
  ⟨slots, Std.TreeMap.ofList (slots.map fun s => (s.old, s)), oldLength, newLength⟩

def slot (layout : Layout) (old : Nat) : Except RelocationError Slot :=
  match layout.index[old]? with
  | some slot => .ok slot
  | none => .error (.notBoundary old)

/-- Where a jump, handler or frame that pointed at `old` points now. The end of the code stays the
end. -/
def target (layout : Layout) (old : Nat) : Except RelocationError Nat :=
  if old = layout.oldLength then .ok layout.newLength
  else
    match layout.slot old with
    | .ok slot => .ok (if slot.captures then slot.inserted else slot.position)
    | .error error => .error error

/-- Where the instruction at `old` itself is now, whatever is inserted in front of it. -/
def instruction (layout : Layout) (old : Nat) : Except RelocationError Nat :=
  match layout.slot old with
  | .ok slot => .ok slot.position
  | .error error => .error error

def narrow (value : Nat) : Except RelocationError UInt16 :=
  if value < 0x10000 then .ok (UInt16.ofNat value) else .error .offset16

def target16 (layout : Layout) (old : UInt16) : Except RelocationError UInt16 := do
  narrow (← layout.target old.toNat)

end Layout

end Registrar
