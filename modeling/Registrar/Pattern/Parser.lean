import Registrar.Pattern.SetParser
import Registrar.Unicode.Category
import Registrar.Unicode.Property
import Registrar.Unicode.Recent

/-!
# Reading patterns

`Expr.parse?` reads a regular expression. Groups and alternations that are still open are kept on a
stack. Look-around and references to groups are not part of the language.
-/

namespace Registrar.Pattern

inductive Frame where
  /-- A group, with the items in front of it, the last first, whether it captures, the flags
  switched inside it, and whether blanks are ignored behind it. -/
  | group (before : List Expr) (captures : Bool) (changes : FlagChanges) (verbose : Bool)
  | alternation (branches : List Expr)

structure ReaderState where
  stack : List Frame
  items : List Expr
  verbose : Bool
  names : List (List Char)

def maxNesting : Nat := 250

def isLetter (c : Char) : Bool :=
  (Property.get "alphabetic").contains c || Recent.alphabetic.contains c

def isNumber (c : Char) : Bool := (Category.get "n").contains c || Recent.number.contains c

def isNameChar (first : Bool) (c : Char) : Bool :=
  if first then c == '_' || isLetter c
  else c == '_' || c == '.' || c == '[' || c == ']' || isLetter c || isNumber c

/-- The name of a group up to its closing angle bracket, and what follows. -/
def groupName? (found : List Char) : List Char → Option (List Char × List Char)
  | [] => none
  | c :: rest =>
    if c = '>' then if found.isEmpty then none else some (found.reverse, rest)
    else if isNameChar found.isEmpty c then groupName? (c :: found) rest
    else none

def flag? (c : Char) : Option Flag :=
  if c = 'i' then some .caseInsensitive
  else if c = 'm' then some .multiLine
  else if c = 's' then some .dotAll
  else if c = 'U' then some .swapGreed
  else if c = 'u' then some .unicode
  else if c = 'R' then some .crlf
  else if c = 'x' then some .ignoreBlanks
  else none

/-- Switches of flags up to a colon or a closing parenthesis: the switches, whether a colon ends
them, and what follows. No flag may occur twice, and a hyphen must be followed by a flag. -/
def flagChanges? (found : FlagChanges) (negated afterHyphen : Bool) :
    List Char → Option (FlagChanges × Bool × List Char)
  | [] => none
  | c :: rest =>
    if c = ':' ∨ c = ')' then
      if afterHyphen then none else some (found.reverse, c = ':', rest)
    else if c = '-' then if negated then none else flagChanges? found true true rest
    else
      match flag? c with
      | none => none
      | some flag =>
        if found.any fun change => change.1 == flag then none
        else flagChanges? ((flag, !negated) :: found) negated false rest

def verboseAfter (changes : FlagChanges) (verbose : Bool) : Bool :=
  (changes.lookup .ignoreBlanks).getD verbose

def openGroup? (s : ReaderState) (text : List Char) : Option (ReaderState × List Char) :=
  let opened (captures : Bool) (changes : FlagChanges) (names : List (List Char)) : ReaderState :=
    ⟨.group s.items captures changes s.verbose :: s.stack, [],
      verboseAfter changes s.verbose, names⟩
  let named (text : List Char) : Option (ReaderState × List Char) := do
    let (name, rest) ← groupName? [] text
    if s.names.contains name then none else return (opened true [] (name :: s.names), rest)
  match skip s.verbose text with
  | '?' :: '=' :: _ => none
  | '?' :: '!' :: _ => none
  | '?' :: '<' :: '=' :: _ => none
  | '?' :: '<' :: '!' :: _ => none
  | '?' :: 'P' :: '<' :: rest => named rest
  | '?' :: '<' :: rest => named rest
  | '?' :: rest =>
    match flagChanges? [] false false rest with
    | none => none
    | some (changes, true, rest) => some (opened false changes s.names, rest)
    | some (changes, false, rest) =>
      if changes.isEmpty then none
      else some ({ s with items := .flags changes :: s.items,
                          verbose := verboseAfter changes s.verbose }, rest)
  | rest => some (opened true [] s.names, rest)

def closeGroup? (s : ReaderState) : Option ReaderState :=
  let here := Expr.ofItems s.items
  match s.stack with
  | .group before captures changes verbose :: stack =>
    some { s with stack, items := .group captures changes here :: before, verbose }
  | .alternation branches :: .group before captures changes verbose :: stack =>
    let inner := Expr.alternation (here :: branches).reverse
    some { s with stack, items := .group captures changes inner :: before, verbose }
  | _ => none

def closeBranch (s : ReaderState) : ReaderState :=
  let here := Expr.ofItems s.items
  match s.stack with
  | .alternation branches :: stack =>
    { s with stack := .alternation (here :: branches) :: stack, items := [] }
  | stack => { s with stack := .alternation [here] :: stack, items := [] }

def closeAll? (s : ReaderState) : Option Expr :=
  let here := Expr.ofItems s.items
  match s.stack with
  | [] => some here
  | [.alternation branches] => some (.alternation (here :: branches).reverse)
  | _ => none

/-- Makes the last item a repetition, of which the text behind its sign or bounds is given. A
question mark there belongs to it. -/
def repeatLast? (s : ReaderState) (least : Nat) (most : Option Nat) (text : List Char) :
    Option (ReaderState × List Char) :=
  match s.items with
  | last :: items =>
    if last.isRepeatable then
      match text with
      | '?' :: rest => some ({ s with items := .repetition least most true last :: items }, rest)
      | rest => some ({ s with items := .repetition least most false last :: items }, rest)
    else none
  | [] => none

/-- The bounds of a counted repetition, after its opening brace, and what follows. -/
def bounds? (verbose : Bool) (text : List Char) :
    Option (Nat × Option Nat × List Char) := do
  let (least, rest) ← decimal? verbose (skip verbose text)
  let (most, rest) ←
    match rest with
    | ',' :: rest =>
      match skip verbose rest with
      | [] => none
      | '\x7d' :: rest => some (none, '\x7d' :: rest)
      | rest => do
        let (most, rest) ← decimal? verbose rest
        some (some most, rest)
    | rest => some (some least, rest)
  match rest with
  | '\x7d' :: rest =>
    if most.all (least ≤ ·) then some (least, most, skip verbose rest) else none
  | _ => none

def Primitive.expr : Primitive → Expr
  | .literal l => .literal l
  | .assertion a => .assertion a
  | .property query negated => .property query negated
  | .letter name negated => .letter name negated

/-- One round of reading, at a character. A set is read in at most `rounds` rounds of its own. -/
def read? (rounds : Nat) (s : ReaderState) (c : Char) (rest : List Char) :
    Option (ReaderState × List Char) :=
  let item (e : Expr) (rest : List Char) : Option (ReaderState × List Char) :=
    some ({ s with items := e :: s.items }, rest)
  if c = '(' then openGroup? s rest
  else if c = ')' then (closeGroup? s).map (·, rest)
  else if c = '|' then some (closeBranch s, rest)
  else if c = '[' then
    match set? s.verbose rounds (c :: rest) with
    | some (negated, set, rest) => item (.bracketed negated set) rest
    | none => none
  else if c = '?' then repeatLast? s 0 (some 1) rest
  else if c = '*' then repeatLast? s 0 none rest
  else if c = '+' then repeatLast? s 1 none rest
  else if c = '\x7b' then
    match bounds? s.verbose rest with
    | some (least, most, rest) => repeatLast? s least most rest
    | none => none
  else if c = '\\' then
    match escape? s.verbose rest with
    | some (p, rest) => item p.expr rest
    | none => none
  else if c = '.' then item .dot rest
  else if c = '^' then item (.assertion .caret) rest
  else if c = '$' then item (.assertion .dollar) rest
  else item (.literal ⟨c, false⟩) rest

/-- Reads to the end of the pattern. Each round takes a character, so as many rounds are enough as
there are characters. -/
def rounds : Nat → ReaderState → List Char → Option Expr
  | 0, _, _ => none
  | n + 1, s, text =>
    match skip s.verbose text with
    | [] => closeAll? s
    | c :: rest =>
      match read? (n + 1) s c rest with
      | some (s, rest) => rounds n s rest
      | none => none

/-- Reads a pattern; `none` if it is not well-formed or nested too deep. -/
def Expr.parse? (text : List Char) : Option Expr := do
  let e ← rounds (text.length + 1) ⟨[], [], false, []⟩ text
  if e.depth ≤ maxNesting then some e else none

end Registrar.Pattern
