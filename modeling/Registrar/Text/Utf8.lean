/-!
# UTF-8

`Utf8.decode?` reads well-formed UTF-8 only: no overlong form, no surrogate, nothing above
`U+10FFFF`. `Utf8.encode` writes the bytes of a text.
-/

namespace Registrar.Utf8

def isContinuation (b : UInt8) : Bool := 0x80 ≤ b && b < 0xC0

def pair (a b : UInt8) : Nat := (a.toNat - 0xC0) * 64 + (b.toNat - 0x80)

def triple (a b c : UInt8) : Nat :=
  ((a.toNat - 0xE0) * 64 + (b.toNat - 0x80)) * 64 + (c.toNat - 0x80)

def quadruple (a b c d : UInt8) : Nat :=
  (((a.toNat - 0xF0) * 64 + (b.toNat - 0x80)) * 64 + (c.toNat - 0x80)) * 64 + (d.toNat - 0x80)

/-- Whether `b c` may follow the lead byte `a` of a three-byte sequence. -/
def isTriple (a b c : UInt8) : Bool :=
  isContinuation b && isContinuation c && (a != 0xE0 || 0xA0 ≤ b) && (a != 0xED || b < 0xA0)

/-- Whether `b c d` may follow the lead byte `a` of a four-byte sequence. -/
def isQuadruple (a b c d : UInt8) : Bool :=
  isContinuation b && isContinuation c && isContinuation d &&
    (a != 0xF0 || 0x90 ≤ b) && (a != 0xF4 || b < 0x90)

/-- Reads the characters of `input` onto `found`, which holds the earlier ones, the last first. -/
def decodeOnto (found : List Char) : List UInt8 → Option (List Char)
  | [] => some found.reverse
  | a :: rest =>
    if a < 0x80 then
      decodeOnto (Char.ofNat a.toNat :: found) rest
    else if a < 0xC2 then
      none
    else if a < 0xE0 then
      match rest with
      | b :: rest =>
        if isContinuation b then decodeOnto (Char.ofNat (pair a b) :: found) rest else none
      | _ => none
    else if a < 0xF0 then
      match rest with
      | b :: c :: rest =>
        if isTriple a b c then decodeOnto (Char.ofNat (triple a b c) :: found) rest else none
      | _ => none
    else if a < 0xF5 then
      match rest with
      | b :: c :: d :: rest =>
        if isQuadruple a b c d then
          decodeOnto (Char.ofNat (quadruple a b c d) :: found) rest
        else none
      | _ => none
    else none

def decode? (input : List UInt8) : Option (List Char) := decodeOnto [] input

def encodeChar (c : Char) : List UInt8 :=
  let n := c.toNat
  if n < 0x80 then [UInt8.ofNat n]
  else if n < 0x800 then [UInt8.ofNat (0xC0 + n / 64), UInt8.ofNat (0x80 + n % 64)]
  else if n < 0x10000 then
    [UInt8.ofNat (0xE0 + n / 4096), UInt8.ofNat (0x80 + n / 64 % 64), UInt8.ofNat (0x80 + n % 64)]
  else
    [UInt8.ofNat (0xF0 + n / 262144), UInt8.ofNat (0x80 + n / 4096 % 64),
      UInt8.ofNat (0x80 + n / 64 % 64), UInt8.ofNat (0x80 + n % 64)]

def encode (text : String) : List UInt8 := text.toList.flatMap encodeChar

end Registrar.Utf8
