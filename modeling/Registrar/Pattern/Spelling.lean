import Registrar.Text.Utf8
import Registrar.Unicode.CharSet

/-!
# Spellings

How the characters of a range are spelled in bytes. A range of characters is cut into pieces whose
spellings are exactly the sequences of bytes from given ranges, one range for each place.
-/

namespace Registrar

structure ByteRange where
  low : UInt8
  high : UInt8
  deriving DecidableEq, Repr, Inhabited

/-- The spellings of a piece of a range: at each place, one byte of a range. -/
abbrev Spelling := List ByteRange

namespace Spelling

/-- Cuts a range where it leaves blocks of `block`, 64 times as many, and so on for `levels` sizes,
so that each piece lies in one block or consists of whole blocks. -/
def pieces : Nat → Nat → Nat → Nat → List (Nat × Nat)
  | 0, _, low, high => [(low, high)]
  | levels + 1, block, low, high =>
    let first := low / block
    let last := high / block
    if first = last then [(low, high)]
    else
      let head := if low % block = 0 then [] else [(low, (first + 1) * block - 1)]
      let low := if low % block = 0 then low else (first + 1) * block
      if low / block = last then head ++ [(low, high)]
      else if high % block = block - 1 then head ++ pieces levels (block * 64) low high
      else head ++ pieces levels (block * 64) low (last * block - 1) ++ [(last * block, high)]

/-- The spelling of a piece, from the bytes of its first and of its last character. -/
def ofEnds (low high : Nat) : Spelling :=
  ((Utf8.encodeChar (Char.ofNat low)).zip (Utf8.encodeChar (Char.ofNat high))).map fun (a, b) =>
    ⟨a, b⟩

/-- The ranges of characters whose spellings have one length, in ascending order; surrogates are
left out. -/
def lengths : List (Nat × Nat) :=
  [(0, 0x7F), (0x80, 0x7FF), (0x800, 0xD7FF), (0xE000, 0xFFFF), (0x10000, 0x10FFFF)]

/-- The spellings of the characters from `low` to `high`, in ascending order. -/
def ofRange (low high : Nat) : List Spelling :=
  lengths.flatMap fun (start, stop) =>
    let low := max low start
    let high := min high stop
    if low ≤ high then
      if high < 0x80 then [ofEnds low high]
      else (pieces 3 64 low high).map fun (low, high) => ofEnds low high
    else []

def ofSet (members : CharSet) : List Spelling :=
  members.ranges.flatMap fun (low, high) => ofRange low high

end Spelling

end Registrar
