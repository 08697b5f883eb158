import Registrar.Text.Utf16
import Registrar.Text.Utf8

/-!
# Modified UTF-8

The text encoding of class files: each UTF-16 unit is written on its own in one to three bytes, and
the unit 0 in two, so that no encoded text holds a zero byte. `decode` is total. Bytes that are
well-formed standard UTF-8 are read as such; other bytes are read unit by unit, and a byte that
starts no complete unit counts as `U+FFFD`.
-/

namespace Registrar.ModifiedUtf8

def encodeUnit (u : UInt16) : List UInt8 :=
  let n := u.toNat
  if 0 < n ∧ n < 0x80 then [UInt8.ofNat n]
  else if n < 0x800 then [UInt8.ofNat (0xC0 + n / 64), UInt8.ofNat (0x80 + n % 64)]
  else
    [UInt8.ofNat (0xE0 + n / 4096), UInt8.ofNat (0x80 + n / 64 % 64), UInt8.ofNat (0x80 + n % 64)]

def encode (text : String) : List UInt8 :=
  (text.toList.flatMap Utf16.units).flatMap encodeUnit

/-- Reads units onto `found`, which holds the earlier ones, the last first. Only the lead byte is
examined; of the bytes that follow it the low six bits are taken. -/
def unitsOnto (found : List UInt16) : List UInt8 → List UInt16
  | [] => found.reverse
  | a :: rest =>
    if a < 0x80 then
      unitsOnto (UInt16.ofNat a.toNat :: found) rest
    else if 0xC0 ≤ a && a < 0xE0 then
      match rest with
      | b :: rest =>
        unitsOnto (UInt16.ofNat (a.toNat % 32 * 64 + b.toNat % 64) :: found) rest
      | [] => (0xFFFD :: found).reverse
    else if 0xE0 ≤ a && a < 0xF0 then
      match rest with
      | b :: c :: rest =>
        unitsOnto
          (UInt16.ofNat ((a.toNat % 16 * 64 + b.toNat % 64) * 64 + c.toNat % 64) :: found) rest
      | rest => unitsOnto (0xFFFD :: found) rest
    else unitsOnto (0xFFFD :: found) rest

def decode (raw : List UInt8) : String :=
  match Utf8.decode? raw with
  | some text => String.ofList text
  | none => String.ofList (Utf16.toChars (unitsOnto [] raw))

end Registrar.ModifiedUtf8
