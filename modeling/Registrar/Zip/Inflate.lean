/-!
# Inflating

Reads data that is compressed in the deflate format: blocks of bytes that stand as they are, or of
symbols in a prefix code. A symbol is a byte, the end of the block, or the length of a piece of the
output that is repeated; how far back the piece lies follows in another code.
-/

namespace Registrar.Inflate

/-! ## Bits -/

/-- Data from a bit on. Bits are taken from each byte from the lowest up. -/
structure Bits where
  data : ByteArray
  position : Nat

namespace Bits

def bit? (b : Bits) : Option (Nat × Bits) :=
  if h : b.position / 8 < b.data.size then
    some ((b.data[b.position / 8].toNat >>> (b.position % 8)) % 2,
      { b with position := b.position + 1 })
  else none

def number? : Nat → Bits → Option (Nat × Bits)
  | 0, b => some (0, b)
  | count + 1, b =>
    match b.bit? with
    | none => none
    | some (low, b) =>
      match number? count b with
      | none => none
      | some (high, b) => some (low + 2 * high, b)

def align (b : Bits) : Bits := { b with position := (b.position + 7) / 8 * 8 }

end Bits

/-! ## Prefix codes -/

def maxLength : Nat := 15

/-- A prefix code: how many words there are of each length, and the symbols in the order of their
words. -/
structure Code where
  counts : Array Nat
  symbols : Array Nat

namespace Code

/-- The code with given lengths of the words of all symbols; 0 if a symbol has none. -/
def ofLengths (lengths : List Nat) : Code :=
  let words := lengths.zipIdx
  let ofLength (length : Nat) : List Nat := (words.filter (·.1 == length)).map (·.2)
  let groups := (List.range (maxLength + 1)).map fun length =>
    if length = 0 then [] else ofLength length
  ⟨(groups.map List.length).toArray, groups.flatten.toArray⟩

/-- Reads a symbol whose word has `length` bits or more. `word` holds the bits so far, `first` the
first word of that length, and `index` the position of its symbol. -/
def symbolFrom? (c : Code) (length word first index : Nat) (b : Bits) : Nat → Option (Nat × Bits)
  | 0 => none
  | bound + 1 =>
    match b.bit? with
    | none => none
    | some (bit, b) =>
      let word := word + bit
      let count := c.counts.getD length 0
      if word < first + count then (c.symbols[index + (word - first)]?).map (·, b)
      else c.symbolFrom? (length + 1) (2 * word) (2 * (first + count)) (index + count) b bound

def symbol? (c : Code) (b : Bits) : Option (Nat × Bits) := c.symbolFrom? 1 0 0 0 b maxLength

end Code

/-! ## Blocks -/

/-- The smallest length of each length symbol, and how many bits are added. -/
def lengthTable : Array (Nat × Nat) := #[
  (3, 0), (4, 0), (5, 0), (6, 0), (7, 0), (8, 0), (9, 0), (10, 0),
  (11, 1), (13, 1), (15, 1), (17, 1), (19, 2), (23, 2), (27, 2), (31, 2), (35, 3), (43, 3), (51, 3),
  (59, 3), (67, 4), (83, 4), (99, 4), (115, 4), (131, 5), (163, 5), (195, 5), (227, 5), (258, 0)]

/-- The smallest distance of each distance symbol, and how many bits are added. -/
def distanceTable : Array (Nat × Nat) := #[
  (1, 0), (2, 0), (3, 0), (4, 0), (5, 1), (7, 1), (9, 2), (13, 2),
  (17, 3), (25, 3), (33, 4), (49, 4), (65, 5), (97, 5), (129, 6), (193, 6), (257, 7), (385, 7),
  (513, 8), (769, 8), (1025, 9), (1537, 9), (2049, 10), (3073, 10), (4097, 11), (6145, 11),
  (8193, 12), (12289, 12), (16385, 13), (24577, 13)]

/-- A number of a table with the bits that are added to it. -/
def extended? (table : Array (Nat × Nat)) (symbol : Nat) (b : Bits) : Option (Nat × Bits) :=
  match table[symbol]? with
  | none => none
  | some (base, extra) => (b.number? extra).map fun (more, b) => (base + more, b)

def repeatBack (output : ByteArray) (distance : Nat) : Nat → ByteArray
  | 0 => output
  | length + 1 =>
    repeatBack (output.push (output[output.size - distance]?.getD 0)) distance length

/-- Reads the symbols of a block. Each takes a bit, so there are fewer than `bound`. -/
def symbols? (lengths distances : Code) (output : ByteArray) (b : Bits) :
    Nat → Option (ByteArray × Bits)
  | 0 => none
  | bound + 1 =>
    match lengths.symbol? b with
    | none => none
    | some (symbol, b) =>
      if symbol < 256 then symbols? lengths distances (output.push (UInt8.ofNat symbol)) b bound
      else if symbol = 256 then some (output, b)
      else
        match extended? lengthTable (symbol - 257) b with
        | none => none
        | some (length, b) =>
          match distances.symbol? b with
          | none => none
          | some (symbol, b) =>
            match extended? distanceTable symbol b with
            | none => none
            | some (distance, b) =>
              if output.size < distance then none
              else symbols? lengths distances (repeatBack output distance length) b bound

def fixedLengths : Code := .ofLengths (List.replicate 144 8 ++ List.replicate 112 9 ++
  List.replicate 24 7 ++ List.replicate 8 8)

def fixedDistances : Code := .ofLengths (List.replicate 30 5)

/-- The order in which the lengths of the words for lengths are given. -/
def lengthOrder : List Nat := [16, 17, 18, 0, 8, 7, 9, 6, 10, 5, 11, 4, 12, 3, 13, 2, 14, 1, 15]

def triples? : Nat → Bits → Option (List Nat × Bits)
  | 0, b => some ([], b)
  | count + 1, b =>
    match b.number? 3 with
    | none => none
    | some (n, b) => (triples? count b).map fun (rest, b) => (n :: rest, b)

/-- Reads lengths of words until there are `count`. `found` holds the earlier ones, the last
first. -/
def lengths? (c : Code) (count : Nat) (found : List Nat) (b : Bits) : Nat → Option (List Nat × Bits)
  | 0 => none
  | bound + 1 =>
    let size := found.length
    if count ≤ size then if size = count then some (found.reverse, b) else none
    else
      let again (base extra value : Nat) (b : Bits) : Option (List Nat × Bits) :=
        match b.number? extra with
        | none => none
        | some (more, b) => lengths? c count (List.replicate (base + more) value ++ found) b bound
      match c.symbol? b with
      | none => none
      | some (16, b) =>
        match found with
        | [] => none
        | last :: _ => again 3 2 last b
      | some (17, b) => again 3 3 0 b
      | some (18, b) => again 11 7 0 b
      | some (n, b) => lengths? c count (n :: found) b bound

def codes? (b : Bits) : Option (Code × Code × Bits) := do
  let (literals, b) ← b.number? 5
  let (distances, b) ← b.number? 5
  let (described, b) ← b.number? 4
  let (given, b) ← triples? (described + 4) b
  let pairs := lengthOrder.zip given
  let code := Code.ofLengths ((List.range 19).map fun n => (pairs.lookup n).getD 0)
  let total := literals + 257 + (distances + 1)
  let (found, b) ← lengths? code total [] b (total + 1)
  return (.ofLengths (found.take (literals + 257)), .ofLengths (found.drop (literals + 257)), b)

def stored? (output : ByteArray) (b : Bits) : Option (ByteArray × Bits) := do
  let (length, b) ← b.align.number? 16
  let (check, b) ← b.number? 16
  let start := b.position / 8
  if length + check = 0xFFFF ∧ start + length ≤ b.data.size then
    return (output ++ b.data.extract start (start + length),
      { b with position := b.position + 8 * length })
  else none

/-- Reads a block; says whether it is the last one. -/
def block? (output : ByteArray) (b : Bits) : Option (Bool × ByteArray × Bits) := do
  let (last, b) ← b.number? 1
  let (kind, b) ← b.number? 2
  let bound := 8 * b.data.size + 1
  let (output, b) ← match kind with
    | 0 => stored? output b
    | 1 => symbols? fixedLengths fixedDistances output b bound
    | 2 => do
      let (lengths, distances, b) ← codes? b
      symbols? lengths distances output b bound
    | _ => none
  return (last = 1, output, b)

/-- Reads blocks up to the last one. Each takes a bit, so there are fewer than `bound`. -/
def blocks? (output : ByteArray) (b : Bits) : Nat → Option ByteArray
  | 0 => none
  | bound + 1 =>
    match block? output b with
    | none => none
    | some (last, output, b) => if last then some output else blocks? output b bound

def content? (data : ByteArray) : Option ByteArray :=
  blocks? ByteArray.empty ⟨data, 0⟩ (8 * data.size + 1)

end Registrar.Inflate
