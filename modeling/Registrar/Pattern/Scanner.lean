import Registrar.Pattern.Syntax
import Registrar.Text.Blank

/-!
# Small steps of the pattern parser

Blanks and comments, decimal numbers and escapes. Under the flag `ignoreBlanks` blanks may stand
nearly everywhere, also between the digits of a number; `verbose` says whether it is in force.
-/

namespace Registrar.Pattern

def skipBlanks (inComment : Bool) : List Char → List Char
  | [] => []
  | c :: rest =>
    if inComment then skipBlanks (c != '\n') rest
    else if isBlank c then skipBlanks false rest
    else if c = '#' then skipBlanks true rest
    else c :: rest

theorem length_skipBlanks_le (inComment : Bool) (text : List Char) :
    (skipBlanks inComment text).length ≤ text.length := by
  induction text generalizing inComment with
  | nil => simp [skipBlanks]
  | cons c rest ih =>
    rw [skipBlanks]
    split
    · exact Nat.le_succ_of_le (ih _)
    · split
      · exact Nat.le_succ_of_le (ih _)
      · split
        · exact Nat.le_succ_of_le (ih _)
        · exact Nat.le_refl _

def skip (verbose : Bool) (text : List Char) : List Char :=
  if verbose then skipBlanks false text else text

theorem length_skip_le (verbose : Bool) (text : List Char) :
    (skip verbose text).length ≤ text.length := by
  unfold skip
  split
  · exact length_skipBlanks_le _ _
  · exact Nat.le_refl _

def hexValue? (c : Char) : Option Nat :=
  if '0' ≤ c ∧ c ≤ '9' then some (c.toNat - 48)
  else if 'a' ≤ c ∧ c ≤ 'f' then some (c.toNat - 87)
  else if 'A' ≤ c ∧ c ≤ 'F' then some (c.toNat - 55)
  else none

/-- A run of decimal digits: its value, if there is a digit, and what follows. -/
def decimalDigits (verbose : Bool) (value : Option Nat) : List Char → Option Nat × List Char
  | [] => (value, [])
  | c :: rest =>
    if c.isDigit then
      decimalDigits verbose (some (value.getD 0 * 10 + (c.toNat - 48))) (skip verbose rest)
    else (value, c :: rest)
termination_by text => text.length
decreasing_by
  have := length_skip_le verbose rest
  simp only [List.length_cons]
  omega

/-- A decimal number of at most 32 bits, with blanks around it. -/
def decimal? (verbose : Bool) (text : List Char) : Option (Nat × List Char) :=
  match decimalDigits verbose none (text.dropWhile isBlank) with
  | (some value, rest) => if value < 0x100000000 then some (value, rest.dropWhile isBlank) else none
  | (none, _) => none

def char? (n : Nat) : Option Char := if n.isValidChar then some (Char.ofNat n) else none

def hexDigits? (verbose : Bool) : Nat → Nat → List Char → Option (Nat × List Char)
  | 0, value, rest => some (value, rest)
  | _ + 1, _, [] => none
  | count + 1, value, c :: rest =>
    match hexValue? c with
    | some d => hexDigits? verbose count (value * 16 + d) (skip verbose rest)
    | none => none

/-- Hexadecimal digits up to a closing brace, at least one of them: their value and what follows. -/
def hexBraced? (verbose : Bool) (value : Option Nat) : List Char → Option (Nat × List Char)
  | [] => none
  | c :: rest =>
    if c = '\x7d' then value.map (·, skip verbose rest)
    else
      match hexValue? c with
      | some d => hexBraced? verbose (some (value.getD 0 * 16 + d)) (skip verbose rest)
      | none => none
termination_by text => text.length
decreasing_by
  have := length_skip_le verbose rest
  simp only [List.length_cons]
  omega

/-- A character by its code point, after the letter `kind` of the escape. -/
def hexEscape? (verbose : Bool) (kind : Char) (text : List Char) : Option (Literal × List Char) :=
  match skip verbose text with
  | '\x7b' :: rest => do
    let (value, rest) ← hexBraced? verbose none (skip verbose rest)
    let c ← char? value
    return (⟨c, false⟩, rest)
  | rest => do
    let count := if kind = 'x' then 2 else if kind = 'u' then 4 else 8
    let (value, rest) ← hexDigits? verbose count 0 rest
    let c ← char? value
    return (⟨c, kind = 'x'⟩, rest)

/-- The characters up to a closing brace, and what follows it. `found` holds the earlier ones, the
last first. -/
def braced? (verbose : Bool) (found : List Char) : List Char → Option (List Char × List Char)
  | [] => none
  | c :: rest =>
    if c = '\x7d' then some (found.reverse, rest)
    else braced? verbose (c :: found) (skip verbose rest)
termination_by text => text.length
decreasing_by
  have := length_skip_le verbose rest
  simp only [List.length_cons]
  omega

def splitAtMark (mark : List Char) (found : List Char) : List Char → Option (List Char × List Char)
  | [] => none
  | c :: rest =>
    if mark.isPrefixOf (c :: rest) then some (found.reverse, (c :: rest).drop mark.length)
    else splitAtMark mark (c :: found) rest

def propertyQuery (text : List Char) : PropertyQuery :=
  let value (parts : List Char × List Char) (negated : Bool) : PropertyQuery :=
    .value (String.ofList parts.1) (String.ofList parts.2) negated
  match splitAtMark ['!', '='] [] text with
  | some parts => value parts true
  | none =>
    match splitAtMark [':'] [] text with
    | some parts => value parts false
    | none =>
      match splitAtMark ['='] [] text with
      | some parts => value parts false
      | none => .named (String.ofList text)

def propertyEscape? (verbose : Bool) (text : List Char) : Option (PropertyQuery × List Char) :=
  match skip verbose text with
  | [] => none
  | '\x7b' :: rest => do
    let (name, rest) ← braced? verbose [] (skip verbose rest)
    return (propertyQuery name, rest)
  | c :: rest =>
    if c = '\\' then none else some (.named (String.singleton c), skip verbose rest)

inductive Primitive where
  | literal (l : Literal)
  | assertion (a : Assertion)
  | property (query : PropertyQuery) (negated : Bool)
  | letter (name : LetterClass) (negated : Bool)
  deriving DecidableEq, Repr

/-- The letters and hyphens up to another character. `found` holds the earlier ones, the last
first. -/
def boundaryName (verbose : Bool) (found : List Char) : List Char → List Char × List Char
  | [] => (found.reverse, [])
  | c :: rest =>
    if c.isAlpha || c == '-' then boundaryName verbose (c :: found) (skip verbose rest)
    else (found.reverse, c :: rest)
termination_by text => text.length
decreasing_by
  have := length_skip_le verbose rest
  simp only [List.length_cons]
  omega

/-- The kind of word boundary, after its escape. A brace that no letter follows starts a
repetition. -/
def boundary? (verbose : Bool) (text : List Char) : Option (Assertion × List Char) :=
  match text with
  | '\x7b' :: rest =>
    match skip verbose rest with
    | [] => none
    | c :: inner =>
      if c.isAlpha || c == '-' then
        match boundaryName verbose [] (c :: inner) with
        | (name, '\x7d' :: rest) =>
          if name = "start".toList then some (.wordStart, rest)
          else if name = "end".toList then some (.wordEnd, rest)
          else if name = "start-half".toList then some (.wordStartHalf, rest)
          else if name = "end-half".toList then some (.wordEndHalf, rest)
          else none
        | _ => none
      else some (.boundary, text)
  | _ => some (.boundary, text)

/-- Whether a backslash in front of the character leaves it as it is: all of ASCII but letters,
digits and angle brackets. -/
def isEscapable (c : Char) : Bool :=
  c.toNat < 0x80 && !c.isAlphanum && c != '<' && c != '>'

def escape? (verbose : Bool) : List Char → Option (Primitive × List Char)
  | [] => none
  | c :: rest =>
    let literal (d : Char) : Option (Primitive × List Char) := some (.literal ⟨d, false⟩, rest)
    if c = 'x' ∨ c = 'u' ∨ c = 'U' then
      (hexEscape? verbose c rest).map fun found => (.literal found.1, found.2)
    else if c = 'p' ∨ c = 'P' then
      (propertyEscape? verbose rest).map fun found => (.property found.1 (c = 'P'), found.2)
    else if c = 'd' ∨ c = 'D' then some (.letter .digit (c = 'D'), rest)
    else if c = 's' ∨ c = 'S' then some (.letter .blank (c = 'S'), rest)
    else if c = 'w' ∨ c = 'W' then some (.letter .word (c = 'W'), rest)
    else if isEscapable c then literal c
    else if c = 'a' then literal '\x07'
    else if c = 'f' then literal '\x0c'
    else if c = 't' then literal '\t'
    else if c = 'n' then literal '\n'
    else if c = 'r' then literal '\x0d'
    else if c = 'v' then literal '\x0b'
    else if c = 'A' then some (.assertion .start, rest)
    else if c = 'z' then some (.assertion .stop, rest)
    else if c = 'b' then
      (boundary? verbose rest).map fun found => (.assertion found.1, found.2)
    else if c = 'B' then some (.assertion .notBoundary, rest)
    else if c = '<' then some (.assertion .wordStart, rest)
    else if c = '>' then some (.assertion .wordEnd, rest)
    else none

end Registrar.Pattern
