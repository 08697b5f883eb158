/-!
# The syntax of patterns

The parts of a regular expression as they are written. What a part matches depends on the flags in
force where it stands, so the syntax is kept apart from its meaning.
-/

namespace Registrar.Pattern

inductive Flag where
  | caseInsensitive
  | multiLine
  | dotAll
  | swapGreed
  | unicode
  | crlf
  | ignoreBlanks
  deriving DecidableEq, Repr

abbrev FlagChanges := List (Flag × Bool)

inductive Assertion where
  | caret
  | dollar
  | start
  | stop
  | boundary
  | notBoundary
  | wordStart
  | wordEnd
  | wordStartHalf
  | wordEndHalf
  deriving DecidableEq, Repr

inductive PropertyQuery where
  | named (name : String)
  | value (name value : String) (negated : Bool)
  deriving DecidableEq, Repr

inductive LetterClass where
  | digit
  | blank
  | word
  deriving DecidableEq, Repr

inductive AsciiClass where
  | alnum
  | alpha
  | ascii
  | blank
  | cntrl
  | digit
  | graph
  | lower
  | print
  | punct
  | space
  | upper
  | word
  | xdigit
  deriving DecidableEq, Repr

structure Literal where
  char : Char
  /-- Whether it is written as a backslash, `x` and two digits, which may stand for a byte. -/
  isByte : Bool
  deriving DecidableEq, Repr

inductive SetOperation where
  | inter
  | diff
  | symmDiff
  deriving DecidableEq, Repr

inductive SetExpr where
  | literal (l : Literal)
  | range (low high : Literal)
  | ascii (name : AsciiClass) (negated : Bool)
  | property (query : PropertyQuery) (negated : Bool)
  | letter (name : LetterClass) (negated : Bool)
  | bracketed (negated : Bool) (inner : SetExpr)
  | union (items : List SetExpr)
  | binary (operation : SetOperation) (left right : SetExpr)
  deriving Repr

inductive Expr where
  | empty
  | flags (changes : FlagChanges)
  | literal (l : Literal)
  | dot
  | assertion (a : Assertion)
  | property (query : PropertyQuery) (negated : Bool)
  | letter (name : LetterClass) (negated : Bool)
  | bracketed (negated : Bool) (inner : SetExpr)
  /-- From `least` to `most` rounds; without a limit if there is no `most`. A question mark behind
  makes it prefer fewer rounds. -/
  | repetition (least : Nat) (most : Option Nat) (isLazy : Bool) (inner : Expr)
  /-- A group, with the flags switched inside it. What a group matches is captured, unless it starts
  with a switch. -/
  | group (captures : Bool) (changes : FlagChanges) (inner : Expr)
  | alternation (branches : List Expr)
  | concat (items : List Expr)
  deriving Repr

namespace SetExpr

mutual

/-- How deep the parts of a set are nested. An absent operand counts as a single item. -/
def depth : SetExpr → Nat
  | .bracketed _ inner => inner.depth + 1
  | .union [] => 0
  | .union items => maxDepth 0 items + 1
  | .binary _ left right => max left.depth right.depth + 1
  | _ => 0

/-- The largest depth of some items and of those before, which is `found`. -/
def maxDepth (found : Nat) : List SetExpr → Nat
  | [] => found
  | item :: items => maxDepth (max found item.depth) items

end

def ofItems : List SetExpr → SetExpr
  | [item] => item
  | items => .union items.reverse

end SetExpr

namespace Expr

mutual

def depth : Expr → Nat
  | .bracketed _ inner => inner.depth + 1
  | .repetition _ _ _ inner => inner.depth + 1
  | .group _ _ inner => inner.depth + 1
  | .alternation branches => maxDepth 0 branches + 1
  | .concat items => maxDepth 0 items + 1
  | _ => 0

/-- The largest depth of some items and of those before, which is `found`. -/
def maxDepth (found : Nat) : List Expr → Nat
  | [] => found
  | item :: items => maxDepth (max found item.depth) items

end

def ofItems : List Expr → Expr
  | [] => .empty
  | [item] => item
  | items => .concat items.reverse

def isRepeatable : Expr → Bool
  | .empty => false
  | .flags _ => false
  | _ => true

end Expr

end Registrar.Pattern
