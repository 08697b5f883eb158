/-!
# Sets of characters

A `CharSet` is a list of ranges of code points in ascending order that neither overlap nor touch.
Union and complement are the two basic operations; the others are built from them. Sets of a
standard are stored as tables: texts that give the gaps and lengths of the ranges.
-/

namespace Registrar

structure CharSet where
  ranges : List (Nat × Nat)
  deriving DecidableEq, Repr, Inhabited

namespace CharSet

def maxPoint : Nat := 0x10FFFF

def surrogates : CharSet := ⟨[(0xD800, 0xDFFF)]⟩

def empty : CharSet := ⟨[]⟩

def range (low high : Nat) : CharSet := ⟨[(low, high)]⟩

def holds (set : CharSet) (point : Nat) : Bool :=
  set.ranges.any fun r => r.1 ≤ point && point ≤ r.2

def contains (set : CharSet) (c : Char) : Bool := set.holds c.toNat

/-- Joins ranges that overlap or touch, given in ascending order of their first points. `found`
holds the earlier ones, the last first. -/
def mergeOnto (found : List (Nat × Nat)) : List (Nat × Nat) → List (Nat × Nat)
  | [] => found.reverse
  | r :: rest =>
    match found with
    | last :: earlier =>
      if r.1 ≤ last.2 + 1 then mergeOnto ((last.1, max last.2 r.2) :: earlier) rest
      else mergeOnto (r :: found) rest
    | [] => mergeOnto [r] rest

def ofRanges (ranges : List (Nat × Nat)) : CharSet :=
  ⟨mergeOnto [] (ranges.mergeSort fun a b => a.1 ≤ b.1)⟩

def ofPoints (points : List Nat) : CharSet := ofRanges (points.map fun p => (p, p))

def union (a b : CharSet) : CharSet := ofRanges (a.ranges ++ b.ranges)

def unions (sets : List CharSet) : CharSet := ofRanges (sets.flatMap (·.ranges))

/-- The gaps between ranges from `next` on. `found` holds the earlier ones, the last first. -/
def gapsOnto (next : Nat) (found : List (Nat × Nat)) : List (Nat × Nat) → List (Nat × Nat)
  | [] => (if next ≤ maxPoint then (next, maxPoint) :: found else found).reverse
  | r :: rest =>
    gapsOnto (r.2 + 1) (if next < r.1 then (next, r.1 - 1) :: found else found) rest

/-- The points that are not in the set. Surrogates are no characters and are left out. -/
def complement (set : CharSet) : CharSet := ⟨gapsOnto 0 [] (set.union surrogates).ranges⟩

def inter (a b : CharSet) : CharSet := (a.complement.union b.complement).complement

def diff (a b : CharSet) : CharSet := a.inter b.complement

def symmDiff (a b : CharSet) : CharSet := (a.diff b).union (b.diff a)

def isAscii (set : CharSet) : Bool := set.ranges.all fun r => r.2 < 0x80

/-! ## Tables -/

def lastDigit? (c : Char) : Option Nat :=
  if '0' ≤ c ∧ c ≤ '9' then some (c.toNat - 48)
  else if 'a' ≤ c ∧ c ≤ 'v' then some (c.toNat - 87)
  else none

/-- The value of a digit that others follow, from 0 to 31. -/
def innerDigit (c : Char) : Nat :=
  if 'A' ≤ c ∧ c ≤ 'Z' then c.toNat - 65
  else if 'w' ≤ c ∧ c ≤ 'z' then c.toNat - 93
  else if c = '.' then 30
  else 31

/-- The numbers of a table: in base 32, the lowest digit first, and the last digit of each number
written by a letter of its own. -/
def numbersOnto (value scale : Nat) (found : List Nat) : List Char → List Nat
  | [] => found.reverse
  | c :: rest =>
    match lastDigit? c with
    | some d => numbersOnto 0 1 ((value + scale * d) :: found) rest
    | none => numbersOnto (value + scale * innerDigit c) (scale * 32) found rest

def numbers (table : String) : List Nat := numbersOnto 0 1 [] table.toList

/-- The ranges from `next` on, given by the gap in front of each and the distance from its first to
its last point. -/
def rangesOnto (next : Nat) (found : List (Nat × Nat)) : List Nat → List (Nat × Nat)
  | gap :: span :: rest =>
    rangesOnto (next + gap + span + 1) ((next + gap, next + gap + span) :: found) rest
  | _ => found.reverse

def ofTable (table : String) : CharSet := ⟨rangesOnto 0 [] (numbers table)⟩

end CharSet

end Registrar
