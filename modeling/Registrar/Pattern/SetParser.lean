import Registrar.Pattern.Scanner

/-!
# Reading sets between brackets

Brackets nest, and `&&`, `--` and `~~` combine what stands on their two sides. The reader keeps the
brackets and combinations that are still open on a stack.
-/

namespace Registrar.Pattern

inductive SetFrame where
  /-- Brackets, with the items in front of them in the brackets around them, the last first. -/
  | brackets (before : List SetExpr) (negated : Bool)
  | combination (operation : SetOperation) (left : SetExpr)

def asciiClass? (name : List Char) : Option AsciiClass :=
  ([("alnum", .alnum), ("alpha", .alpha), ("ascii", .ascii), ("blank", .blank), ("cntrl", .cntrl),
    ("digit", .digit), ("graph", .graph), ("lower", .lower), ("print", .print), ("punct", .punct),
    ("space", .space), ("upper", .upper), ("word", .word), ("xdigit", .xdigit)] :
      List (String × AsciiClass)).lookup (String.ofList name)

def asciiItem? (text : List Char) : Option (SetExpr × List Char) :=
  match text with
  | ':' :: rest =>
    let (negated, rest) :=
      match rest with
      | '^' :: rest => (true, rest)
      | rest => (false, rest)
    let (name, rest) := rest.span (· != ':')
    match rest with
    | ':' :: ']' :: rest => (asciiClass? name).map fun c => (.ascii c negated, rest)
    | _ => none
  | _ => none

/-- Hyphens at the start of a set stand for themselves. Gives the items, the last first, and what
follows, which is not empty. -/
def leadingHyphens (verbose : Bool) (items : List SetExpr) :
    List Char → Option (List SetExpr × List Char)
  | [] => none
  | c :: rest =>
    if c = '-' then
      leadingHyphens verbose (.literal ⟨'-', false⟩ :: items) (skip verbose rest)
    else some (items, c :: rest)
termination_by text => text.length
decreasing_by
  have := length_skip_le verbose rest
  simp only [List.length_cons]
  omega

/-- The start of a set, after its opening bracket: whether it is negated, its first items, the last
first, and what follows. A closing bracket in the first place stands for itself. -/
def openSet? (verbose : Bool) (text : List Char) : Option (Bool × List SetExpr × List Char) := do
  let (negated, text) :=
    match skip verbose text with
    | '^' :: rest => (true, skip verbose rest)
    | rest => (false, rest)
  let (items, text) ← leadingHyphens verbose [] text
  match items, text with
  | [], ']' :: rest =>
    match skip verbose rest with
    | [] => none
    | rest => some (negated, [.literal ⟨']', false⟩], rest)
  | items, text => some (negated, items, text)

def setPrimitive? (verbose : Bool) : List Char → Option (Primitive × List Char)
  | [] => none
  | '\\' :: rest => escape? verbose rest
  | c :: rest => some (.literal ⟨c, false⟩, rest)

/-- The set of one item. An assertion is none. -/
def setItem? : Primitive → Option SetExpr
  | .literal l => some (.literal l)
  | .assertion _ => none
  | .property query negated => some (.property query negated)
  | .letter name negated => some (.letter name negated)

/-- The next character that is not blank; one number sign may stand in front of it. -/
def peekBlanks (passedSign : Bool) : List Char → Option Char
  | [] => none
  | c :: rest =>
    if isBlank c then peekBlanks passedSign rest
    else if c = '#' ∧ !passedSign then peekBlanks true rest
    else some c

/-- The character behind the one at the front, blanks left aside where they are ignored. -/
def peek? (verbose : Bool) (text : List Char) : Option Char :=
  let rest := text.drop 1
  if verbose then (peekBlanks false rest).orElse fun _ => rest.head? else rest.head?

/-- An item or a range. A hyphen in front of a closing bracket or of another hyphen makes no
range. -/
def setRange? (verbose : Bool) (text : List Char) : Option (SetExpr × List Char) := do
  let (first, rest) ← setPrimitive? verbose text
  match skip verbose rest with
  | [] => none
  | c :: rest =>
    let next := peek? verbose (c :: rest)
    if c != '-' || next == some ']' || next == some '-' then
      let item ← setItem? first
      return (item, c :: rest)
    else
      let (second, rest) ← setPrimitive? verbose (skip verbose rest)
      match first, second with
      | .literal low, .literal high =>
        if low.char ≤ high.char then some (.range low high, rest) else none
      | _, _ => none

/-- Closes the combination on top of the stack, if there is one. -/
def closeCombination (stack : List SetFrame) (right : SetExpr) : List SetFrame × SetExpr :=
  match stack with
  | .combination operation left :: stack => (stack, .binary operation left right)
  | stack => (stack, right)

def setOperation? (c : Char) : Option SetOperation :=
  if c = '&' then some .inter
  else if c = '-' then some .diff
  else if c = '~' then some .symmDiff
  else none

/-- Reads a set up to the bracket that closes it: whether it is negated, the set, and what follows.
Each round takes a character, so as many rounds are enough as there are characters, and one. -/
def setRounds (verbose : Bool) :
    Nat → List SetFrame → List SetExpr → List Char → Option (Bool × SetExpr × List Char)
  | 0, _, _, _ => none
  | rounds + 1, stack, items, text =>
    match skip verbose text with
    | [] => none
    | '[' :: rest =>
      match (if stack.isEmpty then none else asciiItem? rest) with
      | some (item, rest) => setRounds verbose rounds stack (item :: items) rest
      | none =>
        match openSet? verbose rest with
        | none => none
        | some (negated, inner, rest) =>
          setRounds verbose rounds (.brackets items negated :: stack) inner rest
    | ']' :: rest =>
      match closeCombination stack (SetExpr.ofItems items) with
      | ([.brackets _ negated], set) => some (negated, set, rest)
      | (.brackets before negated :: stack, set) =>
        setRounds verbose rounds stack (.bracketed negated set :: before) rest
      | _ => none
    | c :: rest =>
      match (if rest.head? = some c then setOperation? c else none) with
      | some operation =>
        let (stack, left) := closeCombination stack (SetExpr.ofItems items)
        setRounds verbose rounds (.combination operation left :: stack) [] (rest.drop 1)
      | none =>
        match setRange? verbose (c :: rest) with
        | none => none
        | some (item, rest) => setRounds verbose rounds stack (item :: items) rest

/-- Reads a set, from its opening bracket on, in at most as many rounds. -/
def set? (verbose : Bool) (rounds : Nat) (text : List Char) : Option (Bool × SetExpr × List Char) :=
  setRounds verbose rounds [] [] text

end Registrar.Pattern
