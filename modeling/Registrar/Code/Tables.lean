import Registrar.Code.Basic
import Registrar.Code.Layout

/-!
# Line numbers, variables and handlers

The tables of a method body that say to which offsets a line, a local variable or an exception
handler belongs, and how they follow moved code.
-/

namespace Registrar

structure LineNumber where
  start : UInt16
  line : UInt16
  deriving DecidableEq, Repr, Inhabited

/-- An entry of a table of local variables, or of their generic types. -/
structure LocalVariable where
  start : UInt16
  length : UInt16
  name : UInt16
  descriptor : UInt16
  slot : UInt16
  deriving DecidableEq, Repr, Inhabited

namespace LineNumber

def decode : Decoder LineNumber := do
  let start ← Decoder.u16
  let line ← Decoder.u16
  return ⟨start, line⟩

def encode (l : LineNumber) : List UInt8 := bytes16 l.start ++ bytes16 l.line

def relocate (layout : Layout) (l : LineNumber) : Except RelocationError LineNumber := do
  return ⟨← layout.target16 l.start, l.line⟩

end LineNumber

namespace LocalVariable

def decode : Decoder LocalVariable := do
  let start ← Decoder.u16
  let length ← Decoder.u16
  let name ← Decoder.u16
  let descriptor ← Decoder.u16
  let slot ← Decoder.u16
  return ⟨start, length, name, descriptor, slot⟩

def encode (v : LocalVariable) : List UInt8 :=
  bytes16 v.start ++ (bytes16 v.length ++ (bytes16 v.name ++ (bytes16 v.descriptor ++
    bytes16 v.slot)))

def relocate (layout : Layout) (v : LocalVariable) : Except RelocationError LocalVariable := do
  let start ← layout.target v.start.toNat
  let stop ← layout.target (v.start.toNat + v.length.toNat)
  return { v with start := ← Layout.narrow start, length := ← Layout.narrow (stop - start) }

end LocalVariable

def Handler.relocate (layout : Layout) (h : Handler) : Except RelocationError Handler := do
  let start ← layout.target16 h.start
  let stop ← layout.target16 h.stop
  let target ← layout.target16 h.target
  return ⟨start, stop, target, h.catchType⟩

namespace OffsetTable

/-- Reads and moves `n` entries one after the other, onto the bytes of the earlier ones, the last
first. The first entry that cannot be read or moved decides the error. -/
@[specialize] def relocateOnto {α : Type} (decode : Decoder α)
    (move : α → Except RelocationError (List UInt8)) :
    Nat → List (List UInt8) → List UInt8 → Except RelocationError (List UInt8)
  | 0, found, _ => .ok found.reverse.flatten
  | n + 1, found, input =>
    match decode input with
    | .error error => .error (.format error)
    | .ok (entry, rest) =>
      match move entry with
      | .error error => .error error
      | .ok bytes => relocateOnto decode move n (bytes :: found) rest

/-- Moves a counted table. What follows the entries is left out. -/
@[inline] def relocate {α : Type} (decode : Decoder α)
    (move : α → Except RelocationError (List UInt8)) (content : List UInt8) :
    Except RelocationError (List UInt8) :=
  match Decoder.u16 content with
  | .error error => .error (.format error)
  | .ok (count, rest) =>
    match relocateOnto decode move count.toNat [] rest with
    | .error error => .error error
    | .ok bytes => .ok (bytes16 count ++ bytes)

def relocateLineNumbers (layout : Layout) : List UInt8 → Except RelocationError (List UInt8) :=
  relocate LineNumber.decode fun entry => (entry.relocate layout).map LineNumber.encode

def relocateLocalVariables (layout : Layout) : List UInt8 → Except RelocationError (List UInt8) :=
  relocate LocalVariable.decode fun entry => (entry.relocate layout).map LocalVariable.encode

end OffsetTable

end Registrar
