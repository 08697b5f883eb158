import Registrar.Pattern.Syntax
import Registrar.Unicode.Age
import Registrar.Unicode.CaseFolding
import Registrar.Unicode.Segmentation

/-!
# Character classes

The sets that the classes of a pattern stand for. With the flag `unicode` they are sets of all
characters; without it they are sets of ASCII characters, and a class that would have to contain
others has no meaning.
-/

namespace Registrar.Pattern

/-! ## Properties by name -/

/-- A name in loose form: small letters, without blanks, hyphens and underscores, and without what
is not ASCII. The word `is` in front of it is dropped. -/
def looseName (name : String) : String :=
  let loosen (text : List Char) : List Char :=
    (text.filter fun c => c.toNat < 0x80 && c != ' ' && c != '_' && c != '-').map Char.toLower
  match name.toList with
  | i :: s :: rest =>
    if (i = 'i' ∨ i = 'I') ∧ (s = 's' ∨ s = 'S') then
      let rest := loosen rest
      if rest = ['c'] then "isc" else String.ofList rest
    else String.ofList (loosen (i :: s :: rest))
  | text => String.ofList (loosen text)

/-- The set that a single name stands for: a property, else a category, else a script. The names
`cf`, `sc` and `lc` are those of categories. -/
def namedSet? (name : String) : Option CharSet :=
  ((Property.find? name).orElse fun _ => Category.find? name).orElse fun _ => Script.find? name

/-- The set of the characters whose property of a name has a value. -/
def valueSet? (name value : String) : Option CharSet :=
  if name = "gc" ∨ name = "generalcategory" then Category.find? value
  else if name = "sc" ∨ name = "script" then Script.find? value
  else if name = "scx" ∨ name = "scriptextensions" then Script.used? value
  else if name = "age" then Age.find? value
  else if name = "gcb" ∨ name = "graphemeclusterbreak" then GraphemeBreak.find? value
  else if name = "wb" ∨ name = "wordbreak" then WordBreak.find? value
  else if name = "sb" ∨ name = "sentencebreak" then SentenceBreak.find? value
  else none

/-- The set that a query stands for, and whether the query itself is a negation. -/
def PropertyQuery.set? : PropertyQuery → Option (CharSet × Bool)
  | .named name => (namedSet? (looseName name)).map (·, false)
  | .value name wanted negated => (valueSet? (looseName name) (looseName wanted)).map (·, negated)

/-! ## Classes with fixed members -/

def AsciiClass.set : AsciiClass → CharSet
  | .alnum => ⟨[(0x30, 0x39), (0x41, 0x5A), (0x61, 0x7A)]⟩
  | .alpha => ⟨[(0x41, 0x5A), (0x61, 0x7A)]⟩
  | .ascii => ⟨[(0, 0x7F)]⟩
  | .blank => ⟨[(0x09, 0x09), (0x20, 0x20)]⟩
  | .cntrl => ⟨[(0, 0x1F), (0x7F, 0x7F)]⟩
  | .digit => ⟨[(0x30, 0x39)]⟩
  | .graph => ⟨[(0x21, 0x7E)]⟩
  | .lower => ⟨[(0x61, 0x7A)]⟩
  | .print => ⟨[(0x20, 0x7E)]⟩
  | .punct => ⟨[(0x21, 0x2F), (0x3A, 0x40), (0x5B, 0x60), (0x7B, 0x7E)]⟩
  | .space => ⟨[(0x09, 0x0D), (0x20, 0x20)]⟩
  | .upper => ⟨[(0x41, 0x5A)]⟩
  | .word => ⟨[(0x30, 0x39), (0x41, 0x5A), (0x5F, 0x5F), (0x61, 0x7A)]⟩
  | .xdigit => ⟨[(0x30, 0x39), (0x41, 0x46), (0x61, 0x66)]⟩

def wordSet : CharSet :=
  CharSet.unions (["alphabetic", "joincontrol"].filterMap Property.find? ++
    ["m", "nd", "pc"].filterMap Category.find?)

def LetterClass.set (unicode : Bool) : LetterClass → CharSet
  | .digit => if unicode then (Category.find? "nd").getD CharSet.empty else AsciiClass.digit.set
  | .blank =>
    if unicode then (Property.find? "whitespace").getD CharSet.empty else AsciiClass.space.set
  | .word => if unicode then wordSet else AsciiClass.word.set

/-! ## Case and negation -/

structure Flags where
  caseInsensitive : Bool
  multiLine : Bool
  dotAll : Bool
  swapGreed : Bool
  unicode : Bool
  crlf : Bool
  deriving DecidableEq, Repr

namespace Flags

def initial : Flags := ⟨false, false, false, false, true, false⟩

def apply (flags : Flags) (changes : FlagChanges) : Flags :=
  let value (flag : Flag) (old : Bool) : Bool := (changes.lookup flag).getD old
  ⟨value .caseInsensitive flags.caseInsensitive, value .multiLine flags.multiLine,
    value .dotAll flags.dotAll, value .swapGreed flags.swapGreed, value .unicode flags.unicode,
    value .crlf flags.crlf⟩

end Flags

/-- A set with the other case of its ASCII letters. -/
def closeAscii (set : CharSet) : CharSet :=
  let letters := (List.range 26).filter fun k => set.holds (0x41 + k) || set.holds (0x61 + k)
  set.union (CharSet.ofPoints (letters.flatMap fun k => [0x41 + k, 0x61 + k]))

/-- A set with all characters that differ from a member only in case, where case is ignored. -/
def foldCase (flags : Flags) (set : CharSet) : CharSet :=
  if flags.caseInsensitive then
    if flags.unicode then CaseFolding.close set else closeAscii set
  else set

/-- The complement of a set, where it is asked for; without `unicode` there is none. -/
def negate? (flags : Flags) (negated : Bool) (set : CharSet) : Option CharSet :=
  if negated then if flags.unicode then some set.complement else none else some set

/-- A set whose case is ignored first and that is then negated. -/
def foldAndNegate? (flags : Flags) (negated : Bool) (set : CharSet) : Option CharSet :=
  negate? flags negated (foldCase flags set)

def propertySet? (flags : Flags) (query : PropertyQuery) (negated : Bool) : Option CharSet :=
  if flags.unicode then
    match query.set? with
    | some (set, inverse) => foldAndNegate? flags (negated != inverse) set
    | none => none
  else none

/-- The set of a class written with a letter. Its members come with both cases as they are. -/
def letterSet? (flags : Flags) (name : LetterClass) (negated : Bool) : Option CharSet :=
  negate? flags negated (name.set flags.unicode)

/-- The code point of a character in a set. Without `unicode` it must be ASCII. -/
def memberPoint? (flags : Flags) (l : Literal) : Option Nat :=
  if flags.unicode || l.char.toNat < 0x80 then some l.char.toNat else none

def SetOperation.apply : SetOperation → CharSet → CharSet → CharSet
  | .inter, a, b => a.inter b
  | .diff, a, b => a.diff b
  | .symmDiff, a, b => a.symmDiff b

namespace SetExpr

mutual

/-- The set between brackets, before the case of its members is ignored. -/
def set? (flags : Flags) : SetExpr → Option CharSet
  | .literal l => (memberPoint? flags l).map fun p => CharSet.range p p
  | .range low high => do
    let low ← memberPoint? flags low
    let high ← memberPoint? flags high
    return CharSet.range low high
  | .ascii name negated => foldAndNegate? flags negated name.set
  | .property query negated => propertySet? flags query negated
  | .letter name negated => letterSet? flags name negated
  | .bracketed negated inner =>
    match set? flags inner with
    | some set => foldAndNegate? flags negated set
    | none => none
  | .union items => (sets? flags items).map CharSet.unions
  | .binary operation left right =>
    match set? flags left, set? flags right with
    | some left, some right => some (operation.apply (foldCase flags left) (foldCase flags right))
    | _, _ => none

def sets? (flags : Flags) : List SetExpr → Option (List CharSet)
  | [] => some []
  | item :: items =>
    match set? flags item, sets? flags items with
    | some set, some sets => some (set :: sets)
    | _, _ => none

end

end SetExpr

end Registrar.Pattern
