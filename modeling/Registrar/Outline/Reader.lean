import Registrar.Binary.Cursor
import Registrar.Outline.Error
import Registrar.Outline.Text

/-!
# Reading an outline

The steps of the outline reader. Their errors name positions in the whole file, so they run on a
cursor.
-/

namespace Registrar

abbrev OutlineReader := StateT Cursor (Except OutlineError)

namespace OutlineReader

def fail {α : Type} (error : OutlineError) : OutlineReader α := fun _ => .error error

def shortInteger {α : Type} : OutlineReader α := fun c =>
  .error (.shortInteger c.offset (c.offset + c.rest.length))

@[inline] def integer {α : Type} (width : Nat) (decode : Decoder α) : OutlineReader α := fun c =>
  match decode c.rest with
  | .ok (value, rest) => .ok (value, ⟨c.offset + width, rest⟩)
  | .error _ => shortInteger c

def u8 : OutlineReader UInt8 := integer 1 Decoder.u8

def u16 : OutlineReader UInt16 := integer 2 Decoder.u16

def u32 : OutlineReader UInt32 := integer 4 Decoder.u32

def u64 : OutlineReader UInt64 := integer 8 Decoder.u64

def block (size : Nat) : OutlineReader (List UInt8) := fun c =>
  match Decoder.take size c.rest with
  | .ok (bytes, rest) => .ok (bytes, ⟨c.offset + size, rest⟩)
  | .error _ => .error (.shortBlock (c.offset + size) (c.offset + c.rest.length))

def skipBlock (size : Nat) : OutlineReader Unit := do
  let _ ← block size

/-- Requires a block of `size` bytes to be there, and stays in front of it. -/
def peekBlock (size : Nat) : OutlineReader Unit := fun c =>
  match block size c with
  | .ok _ => .ok ((), c)
  | .error error => .error error

def skip16 : Nat → OutlineReader Unit
  | 0 => pure ()
  | count + 1 => do
    let _ ← u16
    skip16 count

@[specialize] def times (step : OutlineReader Unit) : Nat → Cursor →
    Except OutlineError (Unit × Cursor)
  | 0, c => .ok ((), c)
  | count + 1, c =>
    match step c with
    | .ok (_, c) => times step count c
    | .error error => .error error

/-- Runs a step as often as a 16-bit count in front of it says. -/
@[inline] def counted16 (step : OutlineReader Unit) : OutlineReader Unit := do
  let count ← u16
  times step count.toNat

/-- Runs a step as often as an 8-bit count in front of it says. -/
@[inline] def counted8 (step : OutlineReader Unit) : OutlineReader Unit := do
  let count ← u8
  times step count.toNat

/-- Runs a step `count` times and prepends the values to `found`, the last one first. -/
@[specialize] def collectOnto {α : Type} (step : OutlineReader α) :
    Nat → List α → Cursor → Except OutlineError (List α × Cursor)
  | 0, found, c => .ok (found.reverse, c)
  | count + 1, found, c =>
    match step c with
    | .ok (value, c) => collectOnto step count (value :: found) c
    | .error error => .error error

/-- The values of a step, run as often as a 16-bit count in front of them says. -/
@[inline] def collect16 {α : Type} (step : OutlineReader α) : OutlineReader (List α) := do
  let count ← u16
  fun c => collectOnto step count.toNat [] c

end OutlineReader

end Registrar
