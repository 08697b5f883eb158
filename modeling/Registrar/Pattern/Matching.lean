import Registrar.Pattern.Automaton

/-!
# Matching

An automaton is run over a text in all ways at once. At each position it is in a set of states, and
a state is entered at most once there, so that the work is bounded by the number of states times the
number of positions. A match may start at any position.
-/

namespace Registrar.Pattern

def isWordChar (unicode : Bool) (c : Char) : Bool :=
  if unicode then wordSet.contains c else AsciiClass.word.set.contains c

/-- Whether a condition holds between the character in front and the one behind. -/
def Look.holds (before after : Option Char) : Look → Bool
  | .start => before.isNone
  | .stop => after.isNone
  | .lineStart => before.all (· == '\n')
  | .lineStop => after.all (· == '\n')
  | .lineStartCrlf =>
    before.all (· == '\n') || (before == some '\x0d' && after != some '\n')
  | .lineStopCrlf =>
    after.all (· == '\x0d') || (after == some '\n' && before != some '\x0d')
  | .boundary unicode => before.any (isWordChar unicode) != after.any (isWordChar unicode)
  | .notBoundary unicode => before.any (isWordChar unicode) == after.any (isWordChar unicode)
  | .wordStart unicode => !before.any (isWordChar unicode) && after.any (isWordChar unicode)
  | .wordEnd unicode => before.any (isWordChar unicode) && !after.any (isWordChar unicode)
  | .wordStartHalf unicode => !before.any (isWordChar unicode)
  | .wordEndHalf unicode => !after.any (isWordChar unicode)

/-- What is known at a position: the states that wait for a character, and for each state the last
position at which it was entered, counted from one. -/
structure Sweep where
  waiting : List (CharSet × Nat)
  entered : Array Nat

namespace Automaton

/-- Enters states at a position between two characters, and all that follow from them without
reading; `none` if the text matches. `fuel` bounds the number of steps. -/
def enter (a : Automaton) (before after : Option Char) (position : Nat) :
    Nat → List Nat → Sweep → Option Sweep
  | 0, _, sweep => some sweep
  | _, [], sweep => some sweep
  | fuel + 1, s :: todo, ⟨waiting, entered⟩ =>
    if entered.getD s position = position then
      a.enter before after position fuel todo ⟨waiting, entered⟩
    else
      let entered := entered.setIfInBounds s position
      match a.states[s]? with
      | none => a.enter before after position fuel todo ⟨waiting, entered⟩
      | some .accept => none
      | some (.read members next) =>
        a.enter before after position fuel todo ⟨(members, next) :: waiting, entered⟩
      | some (.check condition next) =>
        if condition.holds before after then
          a.enter before after position fuel (next :: todo) ⟨waiting, entered⟩
        else a.enter before after position fuel todo ⟨waiting, entered⟩
      | some (.fork first second) =>
        a.enter before after position fuel (first :: second :: todo) ⟨waiting, entered⟩

/-- A bound for the steps at one position. Each state is entered once, puts at most two others on
the list, and was put there at the start at most once by a state that waited. -/
def maxSteps (a : Automaton) : Nat := 3 * a.states.size + 2

/-- The states in which the waiting ones end when they read a character. -/
def successors (waiting : List (CharSet × Nat)) (c : Char) : List Nat :=
  waiting.filterMap fun (members, next) => if members.contains c then some next else none

/-- Runs the automaton over a text behind the character `before`. The states in `todo` are entered
at its start. -/
def run (a : Automaton) (before : Option Char) (position : Nat) (todo : List Nat)
    (entered : Array Nat) : List Char → Bool
  | [] => (a.enter before none position a.maxSteps (a.start :: todo) ⟨[], entered⟩).isNone
  | c :: rest =>
    match a.enter before (some c) position a.maxSteps (a.start :: todo) ⟨[], entered⟩ with
    | none => true
    | some sweep => a.run (some c) (position + 1) (successors sweep.waiting c) sweep.entered rest

def accepts (a : Automaton) (text : List Char) : Bool :=
  a.run none 1 [] (Array.replicate a.states.size 0) text

end Automaton

end Registrar.Pattern
