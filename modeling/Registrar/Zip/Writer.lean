import Registrar.Zip.Archive
import Registrar.Zip.Checksum
import Registrar.Text.Utf8

/-!
# Writing archives

`Archive.encode` writes each entry uncompressed, then the directory of all entries, then the record
that says where the directory is. Entries carry no time of their own: they are dated to the first
day that the format can name.
-/

namespace Registrar.Archive

def low16 (n : Nat) : List UInt8 := [UInt8.ofNat n, UInt8.ofNat (n / 256)]

def low32 (n : Nat) : List UInt8 := low16 n ++ low16 (n / 65536)

def entrySignature : Nat := 0x04034B50

def recordSignature : Nat := 0x02014B50

def endSignature : Nat := 0x06054B50

def storedBytes (e : ArchiveEntry) : List UInt8 :=
  match e.content with
  | .bytes content => content
  | _ => []

/-- The flags of an entry: the name is in UTF-8, and an entry that is refused is encrypted. -/
def flags (e : ArchiveEntry) : Nat := if e.content.refusal?.isSome then 0x0801 else 0x0800

/-- The fields that an entry and its record share: the version that can read it, the flags, no
compression, the first day, the checksum, the sizes, and the length of the name. -/
def sharedFields (e : ArchiveEntry) (name : List UInt8) : List UInt8 :=
  let stored := storedBytes e
  let checksum := match e.content with
    | .bytes content => Checksum.of content
    | _ => 0xFFFFFFFF
  low16 20 ++ low16 (flags e) ++ low16 0 ++ low16 0 ++ low16 0x0021 ++ low32 checksum.toNat ++
    low32 stored.length ++ low32 stored.length ++ low16 name.length

def encodeEntry (e : ArchiveEntry) : List UInt8 :=
  let name := Utf8.encode e.name
  low32 entrySignature ++ sharedFields e name ++ low16 0 ++ name ++ storedBytes e

/-- The record of an entry that starts at an offset: no extra field, no comment, the first volume,
no attributes. -/
def encodeRecord (e : ArchiveEntry) (offset : Nat) : List UInt8 :=
  let name := Utf8.encode e.name
  low32 recordSignature ++ low16 20 ++ sharedFields e name ++ low16 0 ++ low16 0 ++ low16 0 ++
    low16 0 ++ low32 0 ++ low32 offset ++ name

def encodeFrom (offset : Nat) : Archive → List UInt8 × List UInt8
  | [] => ([], [])
  | e :: rest =>
    let entry := encodeEntry e
    let (entries, records) := encodeFrom (offset + entry.length) rest
    (entry ++ entries, encodeRecord e offset ++ records)

def encode (a : Archive) : List UInt8 :=
  let (entries, records) := encodeFrom 0 a
  entries ++ records ++ low32 endSignature ++ low16 0 ++ low16 0 ++ low16 a.length ++
    low16 a.length ++ low32 records.length ++ low32 entries.length ++ low16 0

end Registrar.Archive
