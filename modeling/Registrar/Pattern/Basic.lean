import Registrar.Pattern.Footprint
import Registrar.Pattern.Matching

/-!
# Patterns for whole names

A rule's pattern is put between `^(?:` and `)$` and then read as a regular expression, so that it
speaks of a whole name. The pattern's text is not examined before.
-/

namespace Registrar

/-- The meaning of the text of a pattern. A pattern whose automaton is too large has none. -/
def Pattern.Regex.parse? (text : List Char) : Option Pattern.Regex :=
  ((Pattern.Expr.parse? text).bind Pattern.Expr.regex?).filter fun r => r.normal.isAllowed

structure NamePattern where
  automaton : Pattern.Automaton
  deriving DecidableEq, Repr

namespace NamePattern

def opening : List Char := ['^', '(', '?', ':']

def closing : List Char := [')', '$']

/-- Reads a pattern; `none` if it is not valid between its anchors. -/
def compile? (pattern : String) : Option NamePattern :=
  (Pattern.Regex.parse? (opening ++ pattern.toList ++ closing)).map fun r => ⟨r.automaton⟩

def accepts (p : NamePattern) (name : String) : Bool := p.automaton.accepts name.toList

end NamePattern

end Registrar
