import Std.Data.HashMap
import Registrar.Pattern.Normal

/-!
# Footprints

How much memory the automaton of an expression takes when it reads bytes. A pattern whose automaton,
forwards or backwards, takes more than `maxSize` is not allowed. States are counted as they are
added to the automaton, one by one, together with the links that lie outside of them; states for the
characters of a set are shared where a cache of limited size still holds an equal one.
-/

namespace Registrar.Pattern

structure Footprint where
  states : Nat
  links : Nat
  deriving DecidableEq, Repr

namespace Footprint

def stateSize : Nat := 32

def linkSize : Nat := 4

/-- How many bytes a link takes that holds a range of bytes, too. -/
def edgeSize : Nat := 8

def maxSize : Nat := 0xA00000

def size (f : Footprint) : Nat := f.states * stateSize + f.links

def isAllowed (f : Footprint) : Bool := f.size ≤ maxSize

def addStates (f : Footprint) (count : Nat) : Footprint := { f with states := f.states + count }

def addLinks (f : Footprint) (count : Nat) : Footprint :=
  { f with links := f.links + count * linkSize }

def addEdges (f : Footprint) (count : Nat) : Footprint :=
  ⟨f.states + 1, f.links + count * edgeSize⟩

end Footprint

inductive Direction where
  | forwards
  | backwards
  deriving DecidableEq, Repr

/-! ## Shared states -/

structure Edge where
  range : ByteRange
  next : Nat
  deriving DecidableEq, Repr

def mixHash (h : UInt64) (value : UInt64) : UInt64 := (h ^^^ value) * 0x100000001B3

def hashStart : UInt64 := 0xCBF29CE484222325

/-- States that later ones may share. Each is kept in a slot of its own, which a later state with
the same slot takes over. -/
structure SharedStates where
  footprint : Footprint
  slots : Std.HashMap Nat (List Edge × Nat)

namespace SharedStates

def ofFootprint (f : Footprint) : SharedStates := ⟨f, ∅⟩

/-- The index of a state with given links in a slot: the one that the slot holds, or a new one. -/
def share (s : SharedStates) (slot : Nat) (edges : List Edge) (add : Footprint → Footprint) :
    Nat × SharedStates :=
  let fresh : Nat × SharedStates :=
    (s.footprint.states, ⟨add s.footprint, s.slots.insert slot (edges, s.footprint.states)⟩)
  match s.slots[slot]? with
  | some (known, index) => if known = edges then (index, s) else fresh
  | none => fresh

def node (s : SharedStates) (edges : List Edge) : Nat × SharedStates :=
  let mix (h : UInt64) (e : Edge) : UInt64 :=
    mixHash (mixHash (mixHash h e.range.low.toUInt64) e.range.high.toUInt64) (UInt64.ofNat e.next)
  s.share (edges.foldl mix hashStart % 10000).toNat edges (·.addEdges edges.length)

def step (s : SharedStates) (edge : Edge) : Nat × SharedStates :=
  let hash := mixHash (mixHash (mixHash hashStart (UInt64.ofNat edge.next))
    edge.range.low.toUInt64) edge.range.high.toUInt64
  s.share (hash % 1000).toNat [edge] (·.addStates 1)

/-- The first ranges of spellings, each with the rests of the spellings that start with it.
Spellings with one first range stand next to each other. -/
def firstRanges (spellings : List Spelling) : List (ByteRange × List Spelling) :=
  spellings.foldr (fun spelling found =>
    match spelling, found with
    | range :: rest, (known, rests) :: others =>
      if range = known then (known, (rest :: rests)) :: others else (range, [rest]) :: found
    | range :: rest, [] => [(range, [rest])]
    | [], _ => found) []

/-- Adds the states for spellings, which end in the state `target`. `depth` bounds their length. -/
def spell (target : Nat) : Nat → List Spelling → SharedStates → Nat × SharedStates
  | 0, _, s => (target, s)
  | depth + 1, spellings, s =>
    match firstRanges spellings with
    | [] => (target, s)
    | ranges =>
      let (edges, s) := ranges.foldl (fun (edges, s) (range, rests) =>
        let (next, s) := spell target depth rests s
        (⟨range, next⟩ :: edges, s)) (([] : List Edge), s)
      s.node edges.reverse

end SharedStates

/-- Adds the states for a set whose members are spelled in several bytes. -/
def Footprint.addSpellings (f : Footprint) (spellings : List Spelling) : Direction → Footprint
  | .forwards =>
    (SharedStates.spell f.states 5 spellings (.ofFootprint (f.addStates 1))).2.footprint
  | .backwards =>
    let target := f.states + 1
    let s := spellings.foldl (fun s spelling =>
      (spelling.foldl (fun (next, s) range => SharedStates.step s ⟨range, next⟩) (target, s)).2)
      (SharedStates.ofFootprint (f.addStates 2))
    s.footprint.addLinks spellings.length

/-! ## Words to choose from -/

/-- The words left to choose from at a place, by their first bytes; a word that ends there is no
longer among them. Words with one first byte stay in order. -/
def firstBytes (words : List (List UInt8)) : List (List (List UInt8)) :=
  let sorted := words.mergeSort fun a b => a.headD 0 ≤ b.headD 0
  (sorted.splitBy fun a b => a.headD 0 == b.headD 0).map fun group => group.map (·.drop 1)

/-- The words up to each that ends here, and those behind the last one. Of several that end here
before any other word, one counts. -/
def untilEnds (words : List (List UInt8)) : List (List (List UInt8)) :=
  let chunks := words.splitOnP List.isEmpty
  match chunks with
  | [] :: rest => [] :: rest.dropWhile List.isEmpty
  | chunks => chunks

/-- Adds the states that tell words apart byte by byte. `pending` holds the words that are left at
each place that has no states yet; `fuel` bounds the number of places. -/
def Footprint.addWords : Nat → List (List (List UInt8)) → Footprint → Footprint
  | 0, _, f => f
  | _, [], f => f
  | fuel + 1, words :: pending, f =>
    let chunks := (untilEnds words).map firstBytes
    let states := chunks.foldl (fun f groups =>
      match groups with
      | [] => f
      | [_] => (f.addStates 1).addLinks 1
      | groups => (f.addEdges groups.length).addLinks 1) f
    let places := chunks.flatMap fun groups => groups.filter fun group => group.any (!·.isEmpty)
    addWords fuel (places ++ pending) ((states.addStates 1).addLinks (chunks.length - 1))

/-! ## Expressions -/

/-- What the states of an expression lead to: the footprint with them, and whether the last of them
lists the states behind it, so that one more behind it takes a link. -/
structure Grown where
  footprint : Footprint
  isOpen : Bool

namespace Grown

/-- What ends in a state that does not list those behind it. -/
def closed (f : Footprint) : Grown := ⟨f, false⟩

def joined (g : Grown) : Footprint := if g.isOpen then g.footprint.addLinks 1 else g.footprint

/-- As many more rounds. Once the footprint is too large, the rest makes no difference. -/
def more (step : Footprint → Grown) : Nat → Grown → Grown
  | 0, g => g
  | count + 1, g => if g.footprint.isAllowed then more step count (step g.joined) else g

def exactly (step : Footprint → Grown) (count : Nat) (f : Footprint) : Grown :=
  match count with
  | 0 => closed (f.addStates 1)
  | count + 1 => more step count (step f)

/-- At most as many rounds, each of them with a state in front that may leave them. -/
def optional (step : Footprint → Grown) : Nat → Grown → Grown
  | 0, g => g
  | count + 1, g =>
    if g.footprint.isAllowed then
      optional step count (step ((g.footprint.addStates 1).addLinks (if g.isOpen then 3 else 2)))
    else g

def rounds (step : Footprint → Grown) (consuming : Bool) (least : Nat) (most : Option Nat)
    (f : Footprint) : Grown :=
  match least, most with
  | 0, some 1 => closed ((step (f.addStates 1)).joined.addStates 1 |>.addLinks 2)
  | 0, none =>
    if consuming then ⟨(step (f.addStates 1)).joined.addLinks 1, true⟩
    else closed (((step f).joined.addStates 3).addLinks 4)
  | least + 1, none =>
    ⟨((exactly step (least + 1) f).joined.addStates 1).addLinks 1, true⟩
  | least, some most =>
    if least = most then exactly step least f
    else
      let first := exactly step least f
      closed (optional step (most - least) ⟨first.footprint.addStates 1, first.isOpen⟩).joined

def chain (steps : List (Footprint → Grown)) (f : Footprint) : Grown :=
  steps.foldl (fun g step => step g.joined) (closed f)

/-- A branch of a choice: what leads to it and from it. -/
def branch (f : Footprint) (step : Footprint → Grown) : Footprint := (step f).joined.addLinks 1

/-- One of several. The states that hold the branches together are added behind the second one. -/
def choice (steps : List (Footprint → Grown)) (f : Footprint) : Grown :=
  match steps with
  | first :: second :: others =>
    closed (others.foldl branch ((branch (branch f first) second).addStates 2))
  | [step] => step f
  | [] => closed (f.addStates 1)

end Grown

def Normal.chars? : Normal → Option (List Char)
  | .word chars => some chars
  | _ => none

/-- The words as bytes, in the order in which an automaton reads them. -/
def Direction.spell (d : Direction) (words : List (List Char)) : List (List UInt8) :=
  words.map fun chars =>
    let bytes := chars.flatMap Utf8.encodeChar
    match d with
    | .forwards => bytes
    | .backwards => bytes.reverse

def Footprint.addChoice (f : Footprint) (words : List (List UInt8)) : Footprint :=
  (f.addStates 1).addWords (words.flatten.length + 1) [words]

mutual

def Normal.grow (d : Direction) : Normal → Footprint → Grown
  | .empty, f => .closed (f.addStates 1)
  | .word chars, f => .closed (f.addStates (chars.foldl (fun n c => n + c.utf8Size) 0))
  | .set _ members spellings, f =>
    .closed (if members.isAscii then (f.addStates 1).addEdges members.ranges.length
      else f.addSpellings spellings d)
  | .look _, f => .closed (f.addStates 1)
  | .rounds least most _ inner, f =>
    Grown.rounds (fun f => inner.grow d f) inner.isConsuming least most f
  | .group inner, f =>
    match d with
    | .forwards => .closed ((inner.grow d (f.addStates 1)).joined.addStates 1)
    | .backwards => inner.grow d f
  | .concat items, f =>
    let steps := growers d [] items
    Grown.chain (match d with
      | .forwards => steps.reverse
      | .backwards => steps) f
  | .alternation branches, f =>
    match branches.mapM Normal.chars? with
    | some words => .closed (f.addChoice (d.spell words))
    | none => Grown.choice (growers d [] branches).reverse f

/-- What adds the states of each of some expressions, the last one first, in front of `found`. -/
def growers (d : Direction) (found : List (Footprint → Grown)) :
    List Normal → List (Footprint → Grown)
  | [] => found
  | n :: rest => growers d ((fun f => n.grow d f) :: found) rest

end

/-! ## Patterns -/

namespace Normal

def isAnchored (n : Normal) : Direction → Bool
  | .forwards => n.startsText
  | .backwards => n.stopsText

/-- The footprint of an automaton that finds an expression. Where it may start anywhere, it first
passes over any bytes. Forwards, it captures all that matches. -/
def footprint (n : Normal) (d : Direction) : Footprint :=
  let start : Footprint :=
    if n.isAnchored d then ⟨1, 0⟩ else ((Footprint.addEdges ⟨2, 0⟩ 1).addLinks 2)
  match d with
  | .forwards => ((n.grow d (start.addStates 1)).joined.addStates 2)
  | .backwards => ((n.grow d start).joined.addStates 1)

def isAllowed (n : Normal) : Bool :=
  (n.footprint .forwards).isAllowed && (n.footprint .backwards).isAllowed

end Normal

end Registrar.Pattern
