import Registrar.Code.Relocate
import Registrar.Code.StackMap
import Registrar.Code.Tables

/-!
# Inserting code

`MethodBody.insert` puts code in front of instructions of a method body. Everything in the body that
refers to an offset is moved along: jumps, exception handlers, line numbers, local variables and the
stack map. Type annotations, whose offsets are not decoded, are dropped.
-/

namespace Registrar

namespace Insertion

/-- The smallest offset of an insertion that is not in front of an instruction. -/
def misplaced? (groups : InsertionGroups) (layout : Layout) : Option Nat :=
  groups.keys.find? fun offset => !layout.index.contains offset

end Insertion

namespace MethodBody

/-- The bytes at a place: what is inserted there, then the moved instruction. -/
def relocatePlaced (groups : InsertionGroups) (layout : Layout) (p : Placed) (slot : Slot) :
    Except RelocationError (List UInt8) :=
  match p.instruction.relocate layout p.offset slot.position with
  | .ok moved =>
    .ok (Insertion.groupBytes (groups.getD p.offset []) ++ moved.encode slot.position)
  | .error cause => .error (.at p.offset cause)

def relocateCode (groups : InsertionGroups) (layout : Layout) (code : List Placed) :
    Except RelocationError (List UInt8) := do
  let parts ← (code.zip layout.slots).mapM fun (p, slot) => relocatePlaced groups layout p slot
  return parts.flatten

/-- A nested attribute after the code is moved; `none` if it is dropped. -/
def relocateAttribute (pool : ConstantPool) (layout : Layout) (a : Attribute) :
    Except RelocationError (Option Attribute) :=
  match pool.utf8 a.name with
  | .error error => .error (.pool error)
  | .ok name =>
    let moved (content : Except RelocationError (List UInt8)) :=
      content.map fun content => some { a with content }
    if name = "LineNumberTable" then moved (OffsetTable.relocateLineNumbers layout a.content)
    else if name = "LocalVariableTable" ∨ name = "LocalVariableTypeTable" then
      moved (OffsetTable.relocateLocalVariables layout a.content)
    else if name = "StackMapTable" then
      moved ((StackMap.relocate layout a.content).mapError .stackMap)
    else if name = "RuntimeVisibleTypeAnnotations" ∨ name = "RuntimeInvisibleTypeAnnotations" then
      .ok none
    else .ok (some a)

def maxCodeLength : Nat := 65535

/-- Inserts code into a method body. The stack and local variable limits stay as they are. -/
def insert (body : MethodBody) (insertions : List Insertion) (pool : ConstantPool) :
    Except RelocationError MethodBody := do
  let code ← (Placed.decodeAll body.code).mapError .instruction
  let groups := Insertion.groups insertions
  let layout := Layout.of groups body.code.length code
  if let some offset := Insertion.misplaced? groups layout then
    throw (.insertionOffset offset)
  if maxCodeLength < layout.newLength then throw (.codeTooLong layout.newLength)
  let moved ← relocateCode groups layout code
  let handlers ← body.handlers.mapM (·.relocate layout)
  let attributes ← body.attributes.mapM (relocateAttribute pool layout)
  return { body with code := moved, handlers, attributes := attributes.filterMap id }

end MethodBody

end Registrar
