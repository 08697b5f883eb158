/-!
# UTF-16

`Utf16.units` writes a character as one or two 16-bit units. `Utf16.toChars` reads any list of
units: a high surrogate followed by a low one is one character, any other surrogate is replaced by
`U+FFFD`.
-/

namespace Registrar.Utf16

def replacement : Char := '\uFFFD'

/-- The units of a character: one below `U+10000`, else a high and a low surrogate. -/
def units (c : Char) : List UInt16 :=
  let n := c.toNat
  if n < 0x10000 then [UInt16.ofNat n]
  else [UInt16.ofNat (0xD800 + (n - 0x10000) / 1024), UInt16.ofNat (0xDC00 + (n - 0x10000) % 1024)]

def isHigh (u : UInt16) : Bool := 0xD800 ≤ u && u < 0xDC00

def isLow (u : UInt16) : Bool := 0xDC00 ≤ u && u < 0xE000

def join (high low : UInt16) : Char :=
  Char.ofNat (0x10000 + (high.toNat - 0xD800) * 1024 + (low.toNat - 0xDC00))

/-- Reads units onto `found`, which holds the earlier characters, the last first. -/
def toCharsOnto (found : List Char) : List UInt16 → List Char
  | [] => found.reverse
  | [u] =>
    ((if isHigh u || isLow u then replacement else Char.ofNat u.toNat) :: found).reverse
  | u :: v :: rest =>
    if isHigh u then
      if isLow v then toCharsOnto (join u v :: found) rest
      else toCharsOnto (replacement :: found) (v :: rest)
    else if isLow u then toCharsOnto (replacement :: found) (v :: rest)
    else toCharsOnto (Char.ofNat u.toNat :: found) (v :: rest)

/-- The characters of units, with a replacement for each surrogate that stands alone. -/
def toChars (input : List UInt16) : List Char := toCharsOnto [] input

end Registrar.Utf16
