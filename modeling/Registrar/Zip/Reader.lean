import Registrar.Text.Utf8
import Registrar.Zip.Archive
import Registrar.Zip.Checksum
import Registrar.Zip.Inflate
import Registrar.Zip.Writer
import Std.Data.HashMap

/-!
# Reading archives

`Archive.decode?` finds the record at the end of the bytes, follows it to the directory, and reads
the content of each entry that the directory lists. An entry whose content cannot be read stays in
the archive.
-/

namespace Registrar.Archive

/-! ## Fields -/

/-- The byte at a position; 0 behind the end. -/
def byteAt (data : ByteArray) (position : Nat) : Nat :=
  if h : position < data.size then data[position].toNat else 0

/-- The number in the two bytes from a position on, the low one first. -/
def number16 (data : ByteArray) (position : Nat) : Nat :=
  byteAt data position + 256 * byteAt data (position + 1)

/-- The number in the four bytes from a position on, the lowest first. -/
def number32 (data : ByteArray) (position : Nat) : Nat :=
  number16 data position + 65536 * number16 data (position + 2)

def slice? (data : ByteArray) (position length : Nat) : Option ByteArray :=
  if position + length ≤ data.size then some (data.extract position (position + length)) else none

def legacyChars : Array Char :=
  ("ÇüéâäàåçêëèïîìÄÅÉæÆôöòûùÿÖÜ¢£¥₧ƒáíóúñÑªº¿⌐¬½¼¡«»░▒▓│┤╡╢╖╕╣║╗╝╜╛┐" ++
    "└┴┬├─┼╞╟╚╔╩╦╠═╬╧╨╤╥╙╘╒╓╫╪┘┌█▄▌▐▀αßΓπΣσµτΦΘΩδ∞φε∩≡±≥≤⌠⌡÷≈°∙·√ⁿ²■\u00A0").toList.toArray

def legacyChar (b : UInt8) : Char :=
  if b < 0x80 then Char.ofNat b.toNat else legacyChars.getD (b.toNat - 0x80) '?'

def nameOf (isUtf8 : Bool) (bytes : List UInt8) : String :=
  match isUtf8, Utf8.decode? bytes with
  | true, some name => String.ofList name
  | _, _ => String.ofList (bytes.map legacyChar)

/-! ## Entries -/

structure EntryRecord where
  name : String
  isEncrypted : Bool
  /-- How the content is stored: 0 as it is, 8 compressed. -/
  method : Nat
  checksum : Nat
  storedSize : Nat
  size : Nat
  offset : Nat

/-- The content of an entry that is not refused, if it can be read and agrees with its checksum. -/
def content? (data : ByteArray) (r : EntryRecord) : Option (List UInt8) := do
  let start := r.offset + 30 + number16 data (r.offset + 26) + number16 data (r.offset + 28)
  let stored ← slice? data start r.storedSize
  let content ← if r.method = 0 then some stored else Inflate.content? stored
  let bytes := content.toList
  if content.size = r.size ∧ (Checksum.of bytes).toNat = r.checksum then some bytes else none

def contentOf (data : ByteArray) (r : EntryRecord) : EntryContent :=
  if r.isEncrypted then .refused "unsupported Zip archive: Password required to decrypt file"
  else if number32 data r.offset ≠ entrySignature then
    .refused "invalid Zip archive: Invalid local file header"
  else if r.method ≠ 0 ∧ r.method ≠ 8 then
    .refused "unsupported Zip archive: Compression method not supported"
  else
    match content? data r with
    | some bytes => .bytes bytes
    | none => .corrupt

/-- The records of a directory that starts at a position. `base` is the position of the first
entry's volume. -/
def records? (data : ByteArray) (base : Nat) : Nat → Nat → Option (List EntryRecord)
  | 0, _ => some []
  | count + 1, position => do
    if number32 data position ≠ recordSignature then none
    let nameLength := number16 data (position + 28)
    let name ← slice? data (position + 46) nameLength
    let next :=
      position + 46 + nameLength + number16 data (position + 30) + number16 data (position + 32)
    let flags := number16 data (position + 8)
    let isUtf8 := flags / 0x800 % 2 = 1
    let rest ← records? data base count next
    return ⟨nameOf isUtf8 name.toList, flags % 2 = 1, number16 data (position + 10),
      number32 data (position + 16), number32 data (position + 20), number32 data (position + 24),
      base + number32 data (position + 42)⟩ :: rest

/-- The last position up to `position` at which the record at the end can start. -/
def endPosition? (data : ByteArray) : Nat → Option Nat
  | 0 => if number32 data 0 = endSignature then some 0 else none
  | position + 1 =>
    if number32 data (position + 1) = endSignature then some (position + 1)
    else endPosition? data position

/-- The records of all entries. The entries may stand behind other data. -/
def directory? (data : ByteArray) : Option (List EntryRecord) := do
  if data.size < 22 then none
  let position ← endPosition? data (data.size - 22)
  let length := number32 data (position + 12)
  let offset := number32 data (position + 16)
  if position < length + offset then none
  let base := position - length - offset
  records? data base (number16 data (position + 10)) (base + offset)

/-- The entries of records. Of two records with one name the later takes the place of the
earlier. -/
def ofRecords (data : ByteArray) (records : List EntryRecord) : Archive :=
  let build := records.foldl
    (fun (found : Array EntryRecord × Std.HashMap String Nat) r =>
      match found.2[r.name]? with
      | some index => (found.1.setIfInBounds index r, found.2)
      | none => (found.1.push r, found.2.insert r.name found.1.size))
    (#[], ∅)
  build.1.toList.map fun r => ⟨r.name, contentOf data r⟩

/-- The archive that some bytes were, with what its entries hold now that the bytes are others. -/
def reread? (opened now : ByteArray) : Option Archive := (directory? opened).map (ofRecords now)

def decode? (data : ByteArray) : Option Archive := reread? data data

end Registrar.Archive
