import Registrar.Text.Utf8

/-!
# Texts of an outline

The outline reader decodes texts by rules of its own. Well-formed UTF-8 is taken as it is; other
bytes are read as strict modified UTF-8, in which the two halves of a supplementary character stand
as two three-byte sequences; and where that fails too, `lenientOnto` replaces what cannot be read by
`?`.
-/

namespace Registrar.OutlineText

/-- The code point of a high and a low surrogate, of which the bytes after `ED` are given. -/
def joined (a b c d : UInt8) : Nat :=
  0x10000 + ((a.toNat % 16 * 64 + b.toNat % 64) * 1024 + (c.toNat % 16 * 64 + d.toNat % 64))

/-- Reads strict modified UTF-8 onto `found`, which holds the earlier characters, the last first. -/
def strictOnto (found : List Char) : List UInt8 → Option (List Char)
  | [] => some found.reverse
  | a :: rest =>
    if a = 0 then none
    else if a < 0x80 then strictOnto (Char.ofNat a.toNat :: found) rest
    else if a = 0xC0 then
      match rest with
      | b :: rest => if b = 0x80 then strictOnto ('\x00' :: found) rest else none
      | [] => none
    else if a < 0xC2 then none
    else if a < 0xE0 then
      match rest with
      | b :: rest =>
        if Utf8.isContinuation b then strictOnto (Char.ofNat (Utf8.pair a b) :: found) rest
        else none
      | [] => none
    else if a < 0xF0 then
      match rest with
      | b :: c :: rest =>
        if Utf8.isTriple a b c then strictOnto (Char.ofNat (Utf8.triple a b c) :: found) rest
        else if a = 0xED ∧ 0xA0 ≤ b ∧ b < 0xB0 ∧ Utf8.isContinuation c then
          match rest with
          | d :: e :: f :: rest =>
            if d = 0xED ∧ 0xB0 ≤ e ∧ e < 0xC0 ∧ Utf8.isContinuation f then
              strictOnto (Char.ofNat (joined b c e f) :: found) rest
            else none
          | _ => none
        else none
      | _ => none
    else none

/-- The character at a code point, or `?` where there is none. -/
def charOr (n : Nat) : Char := if n.isValidChar then Char.ofNat n else '?'

/-- The character that the byte `a` and those behind it stand for, and how many of those behind it
belong to it. The two halves of a surrogate pair are read together; half of a pair, and a cut-off or
impossible sequence, count as `?`. -/
def lenientNext (a : UInt8) : List UInt8 → Char × Nat
  | b :: c :: d :: e :: f :: _ =>
    if a = 0xED ∧ 0xA0 ≤ b ∧ b < 0xB0 ∧ Utf8.isContinuation c ∧
        d = 0xED ∧ 0xB0 ≤ e ∧ e < 0xC0 ∧ Utf8.isContinuation f then
      (Char.ofNat (joined b c e f), 5)
    else single a b (some c)
  | b :: c :: _ => single a b (some c)
  | [b] => single a b none
  | [] => (if a < 0x80 then Char.ofNat a.toNat else '?', 0)
where
  single (a b : UInt8) (third : Option UInt8) : Char × Nat :=
    if 0xE0 ≤ a ∧ a < 0xF0 ∧ Utf8.isContinuation b then
      match third with
      | some c => if Utf8.isContinuation c then (charOr (Utf8.triple a b c), 2) else ('?', 1)
      | none => ('?', 1)
    else if 0xC0 ≤ a ∧ a < 0xE0 ∧ Utf8.isContinuation b then (Char.ofNat (Utf8.pair a b), 1)
    else (if a < 0x80 then Char.ofNat a.toNat else '?', 0)

/-- Reads any bytes onto `found`, which holds the earlier characters, the last first. -/
def lenientOnto (found : List Char) : List UInt8 → List Char
  | [] => found.reverse
  | a :: rest =>
    let (c, more) := lenientNext a rest
    lenientOnto (c :: found) (rest.drop more)
termination_by bytes => bytes.length
decreasing_by simp only [List.length_drop, List.length_cons]; omega

def decode (raw : List UInt8) : String :=
  match Utf8.decode? raw with
  | some text => String.ofList text
  | none =>
    match strictOnto [] raw with
    | some text => String.ofList text
    | none => String.ofList (lenientOnto [] raw)

end Registrar.OutlineText
