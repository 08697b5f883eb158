import Registrar.Binary.Decoder

/-!
# A position in bytes

A `Cursor` stands at an offset and sees the bytes from there on. Its reads report the value and
where the cursor stands afterwards: a failed read leaves it in place, except that a 64-bit read is
two 32-bit reads and keeps the progress of the first (`u64_short`).
-/

namespace Registrar

structure Cursor where
  offset : Nat
  rest : List UInt8
  deriving DecidableEq, Repr

namespace Cursor

def start (data : List UInt8) : Cursor := ⟨0, data⟩

def isEmpty (c : Cursor) : Bool := c.rest.isEmpty

def read {α : Type} (decode : Decoder α) (c : Cursor) : Except FormatError α × Cursor :=
  match decode c.rest with
  | .ok (value, rest) => (.ok value, ⟨c.offset + (c.rest.length - rest.length), rest⟩)
  | .error error => (.error error, c)

/-- The next eight bytes as a number, read as two halves. -/
def u64 (c : Cursor) : Except FormatError UInt64 × Cursor :=
  match c.read Decoder.u32 with
  | (.error error, c) => (.error error, c)
  | (.ok high, c) =>
    match c.read Decoder.u32 with
    | (.error error, c) => (.error error, c)
    | (.ok low, c) => (.ok (UInt64.ofNat (high.toNat * 4294967296 + low.toNat)), c)

/-- The next `n` bytes. The end position must be a 64-bit address, whatever the data's length. -/
def bytes (n : Nat) (c : Cursor) : Except FormatError (List UInt8) × Cursor :=
  if c.offset + n < 0x10000000000000000 then c.read (Decoder.take n)
  else (.error .lengthOverflow, c)

end Cursor

end Registrar
