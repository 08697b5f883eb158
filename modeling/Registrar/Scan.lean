import Registrar.Inputs
import Registrar.Metadata.Read
import Registrar.Rule.Basic
import Std.Data.HashSet

/-!
# Scanning

`Scan.of` looks at every class entry of the inputs once. Several roots may hold an entry; the first
root owns it, and the copies in later roots are passed over.
-/

namespace Registrar

def dropReversedSuffixes : List Char → List Char
  | 's' :: 's' :: 'a' :: 'l' :: 'c' :: '.' :: rest => dropReversedSuffixes rest
  | text => text

/-- What two entries have in common of which only the first is looked at: the name without the
`.class` that it ends with, however often it does. -/
def ownershipKey (entry : String) : String :=
  String.ofList (dropReversedSuffixes entry.toList.reverse).reverse

/-- Entries that are owned, and what is known of those before them. -/
structure Claims where
  seen : Std.HashSet String
  duplicates : Nat

namespace Claims

def start : Claims := ⟨∅, 0⟩

def claim (c : Claims) : List String → List String × Claims
  | [] => ([], c)
  | entry :: entries =>
    let key := ownershipKey entry
    if c.seen.contains key then { c with duplicates := c.duplicates + 1 }.claim entries
    else
      let (owned, c) := { c with seen := c.seen.insert key }.claim entries
      (entry :: owned, c)

def claimAll (c : Claims) : List (Root × List String) → List (Root × List String) × Claims
  | [] => ([], c)
  | (root, entries) :: rest =>
    let (owned, c) := c.claim entries
    let (others, c) := c.claimAll rest
    ((root, owned) :: others, c)

end Claims

inductive EntryVerdict where
  | evaluated (className : String) (rules : List Nat)
  | malformed (origin : String)
  deriving DecidableEq, Repr

namespace EntryVerdict

def isEvaluated : EntryVerdict → Bool
  | .evaluated _ _ => true
  | .malformed _ => false

def malformed? : EntryVerdict → Option String
  | .evaluated _ _ => none
  | .malformed origin => some origin

/-- The name of the class, if the rule with an index registers it. -/
def matchedBy? (rule : Nat) : EntryVerdict → Option String
  | .evaluated className rules => if rules.contains rule then some className else none
  | .malformed _ => none

end EntryVerdict

def Root.evaluate (fs : FileSystem) (rules : List Rule) (root : Root) (entry : String) :
    EntryVerdict :=
  match root.readEntry fs entry with
  | .error _ => .malformed (root.origin entry)
  | .ok data =>
    match Metadata.read data with
    | .error _ => .malformed (root.origin entry)
    | .ok m => .evaluated m.name (Rule.matching rules m)

structure Scan where
  classCount : Nat
  /-- How many entries were passed over because an earlier root owns them. -/
  duplicateCount : Nat
  malformed : List String
  matched : List NameSet
  deriving DecidableEq

namespace Scan

/-- The class entries of each root. A root that cannot be listed has none. -/
def listings (fs : FileSystem) (roots : List Root) : List (Root × List String) :=
  roots.map fun root =>
    match root.classEntries fs with
    | .ok entries => (root, entries)
    | .error _ => (root, [])

def ofVerdicts (ruleCount duplicates : Nat) (verdicts : List EntryVerdict) : Scan :=
  ⟨verdicts.countP (·.isEvaluated), duplicates,
    (verdicts.filterMap (·.malformed?)).mergeSort (· ≤ ·),
    (List.range ruleCount).map fun rule => NameSet.ofList (verdicts.filterMap (·.matchedBy? rule))⟩

def of (fs : FileSystem) (inputs : Inputs) (rules : List Rule) : Scan :=
  let (owned, claims) := Claims.start.claimAll (listings fs inputs.roots)
  let verdicts := owned.flatMap fun (root, entries) => entries.map (root.evaluate fs rules)
  ofVerdicts rules.length claims.duplicates verdicts

end Scan

end Registrar
