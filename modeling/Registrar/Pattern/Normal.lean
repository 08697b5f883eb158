import Registrar.Pattern.Regex
import Registrar.Pattern.Spelling

/-!
# Normal forms

The form of an expression from which the size of its automaton is computed. It has no empty parts
within others, neighbouring characters are joined to words, a sequence or a choice within another is
merged into it, a choice between characters is a set, and what all branches of a choice start with
stands in front of the choice. The smart constructors `ofSet`, `rounds`, `ofItems` and `ofBranches`
keep this form.
-/

namespace Registrar.Pattern

inductive Normal where
  | empty
  | word (chars : List Char)
  /-- One character of a set that has more than one member, or none. Unless all of them are ASCII
  characters, their spellings are given, too. -/
  | set (ascii : Bool) (members : CharSet) (spellings : List Spelling)
  | look (condition : Look)
  /-- From `least` to `most` rounds; without a limit if there is no `most`. -/
  | rounds (least : Nat) (most : Option Nat) (greedy : Bool) (inner : Normal)
  | group (inner : Normal)
  | concat (items : List Normal)
  | alternation (branches : List Normal)
  deriving Repr, Inhabited

namespace Normal

/-! ## Measures -/

mutual

def isIdle : Normal → Bool
  | .empty => true
  | .word _ => false
  | .set _ _ _ => false
  | .look _ => true
  | .rounds _ _ _ inner => inner.isIdle
  | .group inner => inner.isIdle
  | .concat items => allIdle items
  | .alternation branches => allIdle branches

def allIdle : List Normal → Bool
  | [] => true
  | n :: rest => n.isIdle && allIdle rest

end

mutual

/-- The length of the shortest text that an expression matches, as far as it matters: no text is
counted as longer than one. An expression without matching texts has none. -/
def shortest : Normal → Option Nat
  | .empty => some 0
  | .word _ => some 1
  | .set _ members _ => if members.ranges.isEmpty then none else some 1
  | .look _ => some 0
  | .rounds least _ _ inner => inner.shortest.map (min least ·)
  | .group inner => inner.shortest
  | .concat items => longestOf 0 items
  | .alternation branches => shortestOf 1 branches

/-- The largest of some lengths and of `found`, none if one has none. -/
def longestOf (found : Nat) : List Normal → Option Nat
  | [] => some found
  | n :: rest =>
    match n.shortest with
    | some length => longestOf (max found length) rest
    | none => none

/-- The smallest of some lengths and of `found`, none if one has none. -/
def shortestOf (found : Nat) : List Normal → Option Nat
  | [] => some found
  | n :: rest =>
    match n.shortest with
    | some length => shortestOf (min found length) rest
    | none => none

end

/-- Whether each round of an expression is known to read a character. -/
def isConsuming (n : Normal) : Bool := n.shortest == some 1

mutual

/-- Whether every match stands at the start of the text, as the first parts tell. -/
def startsText : Normal → Bool
  | .look condition => condition == .start
  | .rounds least _ _ inner => least != 0 && inner.startsText
  | .group inner => inner.startsText
  | .concat items => anyStarts items
  | .alternation branches => allStart branches
  | _ => false

/-- Whether one of the items in front of all that read characters stands at the start. -/
def anyStarts : List Normal → Bool
  | [] => false
  | n :: rest => n.startsText || (n.isIdle && anyStarts rest)

def allStart : List Normal → Bool
  | [] => true
  | n :: rest => n.startsText && allStart rest

end

mutual

/-- Whether every match stands at the end of the text, as the last parts tell. -/
def stopsText : Normal → Bool
  | .look condition => condition == .stop
  | .rounds least _ _ inner => least != 0 && inner.stopsText
  | .group inner => inner.stopsText
  | .concat items => anyStops false items
  | .alternation branches => allStop branches
  | _ => false

/-- Whether one of the items behind all that read characters stands at the end; `found` tells it of
the items before. -/
def anyStops (found : Bool) : List Normal → Bool
  | [] => found
  | n :: rest => anyStops (n.stopsText || (n.isIdle && found)) rest

def allStop : List Normal → Bool
  | [] => true
  | n :: rest => n.stopsText && allStop rest

end

mutual

def weight : Normal → Nat
  | .rounds _ _ _ inner => inner.weight + 1
  | .group inner => inner.weight + 1
  | .concat items => totalWeight 1 items
  | .alternation branches => totalWeight 1 branches
  | _ => 1

def totalWeight (found : Nat) : List Normal → Nat
  | [] => found
  | n :: rest => totalWeight (found + n.weight) rest

end

mutual

/-- Whether two expressions do the same. Two groups capture different things. -/
def same : Normal → Normal → Bool
  | .empty, .empty => true
  | .word a, .word b => a == b
  | .set ascii a _, .set ascii' b _ => ascii == ascii' && a == b
  | .look a, .look b => a == b
  | .rounds least most greedy inner, .rounds least' most' greedy' inner' =>
    least == least' && most == most' && greedy == greedy' && inner.same inner'
  | .concat items, .concat items' => allSame items items'
  | .alternation branches, .alternation branches' => allSame branches branches'
  | _, _ => false

def allSame : List Normal → List Normal → Bool
  | [], [] => true
  | n :: rest, n' :: rest' => n.same n' && allSame rest rest'
  | _, _ => false

end

/-! ## Smart constructors -/

def ofSet (ascii : Bool) (members : CharSet) : Normal :=
  let spellings := if members.isAscii then [] else Spelling.ofSet members
  match members.ranges with
  | [(low, high)] => if low = high then .word [Char.ofNat low] else .set ascii members spellings
  | [] => .set true members []
  | _ => .set ascii members spellings

/-- Rounds of an expression. Of an idle one, one round stands for all. -/
def ofRounds (least : Nat) (most : Option Nat) (greedy : Bool) (inner : Normal) : Normal :=
  let (least, most) :=
    if inner.isIdle then (min least 1, some (min (most.getD 1) 1)) else (least, most)
  if most = some 0 then .empty
  else if least = 1 ∧ most = some 1 then inner
  else .rounds least most greedy inner

def items : Normal → List Normal
  | .empty => []
  | .concat items => items
  | n => [n]

/-- Puts an item in front of others. Neighbouring words are joined. -/
def addItem : Normal → List Normal → List Normal
  | .word a, .word b :: rest => .word (a ++ b) :: rest
  | n, rest => n :: rest

def ofItems (parts : List Normal) : Normal :=
  match (parts.flatMap items).foldr addItem [] with
  | [] => .empty
  | [n] => n
  | items => .concat items

def branches : Normal → List Normal
  | .alternation branches => branches
  | n => [n]

def char? : Normal → Option Char
  | .word [c] => some c
  | _ => none

def members? : Normal → Option CharSet
  | .set _ members _ => some members
  | _ => none

/-- The set of all branches, if they are all single characters or all sets. -/
def joined? (branches : List Normal) : Option CharSet :=
  match branches.mapM char? with
  | some chars => some (CharSet.ofPoints (chars.map Char.toNat))
  | none => (branches.mapM members?).map CharSet.unions

def commonItems : List Normal → List Normal → List Normal
  | a :: rest, b :: rest' => if a.same b then a :: commonItems rest rest' else []
  | _, _ => []

def sequence? : Normal → Option (List Normal)
  | .concat items => some items
  | _ => none

/-- What the items of all branches start with, and the rest of each branch. -/
def commonPrefix? (branches : List Normal) : Option (List Normal × List Normal) :=
  match branches.mapM sequence? with
  | some (first :: others) =>
    match others.foldl commonItems first with
    | [] => none
    | common => some (common, (first :: others).map fun items => ofItems (items.drop common.length))
  | _ => none

/-- One of several. What all start with is put in front, and the rests are a choice again; `fuel`
bounds how often. -/
def ofBranches : Nat → List Normal → Normal
  | fuel, parts =>
    match parts.flatMap branches with
    | [n] => n
    | all =>
      match joined? all with
      | some members => ofSet false members
      | none =>
        match fuel, commonPrefix? all with
        | fuel + 1, some (common, rests) => ofItems (common ++ [ofBranches fuel rests])
        | _, _ => .alternation all

end Normal

mutual

def Regex.normal : Regex → Normal
  | .empty => .empty
  | .set ascii members => .ofSet ascii members
  | .look condition => .look condition
  | .rounds least most greedy inner => .ofRounds least most greedy inner.normal
  | .group inner => .group inner.normal
  | .concat backwards => .ofItems (normals [] backwards)
  | .alternation branches =>
    let parts := (normals [] branches).reverse
    .ofBranches (Normal.totalWeight 0 parts) parts

/-- The normal forms of some expressions, in the opposite order, in front of `found`. -/
def normals (found : List Normal) : List Regex → List Normal
  | [] => found
  | r :: rest => normals (r.normal :: found) rest

end

end Registrar.Pattern
