import Registrar.Pattern.Classes
import Registrar.Pattern.Parser

/-!
# Regular expressions

What a pattern means once its flags are resolved: sets of characters, conditions on positions, and
the ways to combine them. `Expr.regex?` gives the meaning of a pattern; a part that has none makes
the whole pattern invalid.
-/

namespace Registrar.Pattern

inductive Look where
  | start
  | stop
  | lineStart
  | lineStop
  | lineStartCrlf
  | lineStopCrlf
  | boundary (unicode : Bool)
  | notBoundary (unicode : Bool)
  | wordStart (unicode : Bool)
  | wordEnd (unicode : Bool)
  | wordStartHalf (unicode : Bool)
  | wordEndHalf (unicode : Bool)
  deriving DecidableEq, Repr

/-- A regular expression. What a group captures and whether a repetition is greedy do not bear on
which texts match. -/
inductive Regex where
  | empty
  /-- One character of a set; `ascii` tells that the set was meant for ASCII characters alone. -/
  | set (ascii : Bool) (members : CharSet)
  | look (condition : Look)
  /-- From `least` to `most` rounds; without a limit if there is no `most`. -/
  | rounds (least : Nat) (most : Option Nat) (greedy : Bool) (inner : Regex)
  | group (inner : Regex)
  /-- One after the other; the last one is the first of the list. -/
  | concat (backwards : List Regex)
  | alternation (branches : List Regex)
  deriving Repr

def Assertion.look (flags : Flags) : Assertion → Look
  | .caret =>
    if flags.multiLine then if flags.crlf then .lineStartCrlf else .lineStart else .start
  | .dollar => if flags.multiLine then if flags.crlf then .lineStopCrlf else .lineStop else .stop
  | .start => .start
  | .stop => .stop
  | .boundary => .boundary flags.unicode
  | .notBoundary => .notBoundary flags.unicode
  | .wordStart => .wordStart flags.unicode
  | .wordEnd => .wordEnd flags.unicode
  | .wordStartHalf => .wordStartHalf flags.unicode
  | .wordEndHalf => .wordEndHalf flags.unicode

/-- The characters that `.` stands for. Without `unicode` it would stand for bytes. -/
def dotSet? (flags : Flags) : Option CharSet :=
  if !flags.unicode then none
  else if flags.dotAll then some CharSet.empty.complement
  else if flags.crlf then some (CharSet.ofPoints [0x0A, 0x0D]).complement
  else some (CharSet.range 0x0A 0x0A).complement

/-- The characters that a literal stands for. Without `unicode`, two hexadecimal digits above `7F`
stand for a byte that is no character, and only ASCII letters have a case. -/
def literalSet? (flags : Flags) (l : Literal) : Option CharSet :=
  let point := l.char.toNat
  if !flags.unicode && l.isByte && 0x80 ≤ point then none
  else some (foldCase flags (CharSet.range point point))

def Regex.ofSet (flags : Flags) (members : CharSet) : Regex × Flags :=
  (.set (!flags.unicode) members, flags)

mutual

/-- The meaning of a pattern, and the flags in force behind it. -/
def Expr.resolve? (flags : Flags) : Expr → Option (Regex × Flags)
  | .empty => some (.empty, flags)
  | .flags changes => some (.empty, flags.apply changes)
  | .literal l => (literalSet? flags l).map (Regex.ofSet flags)
  | .dot => (dotSet? flags).map (Regex.ofSet flags)
  | .assertion a => some (.look (a.look flags), flags)
  | .property query negated => (propertySet? flags query negated).map (Regex.ofSet flags)
  | .letter name negated => (letterSet? flags name negated).map (Regex.ofSet flags)
  | .bracketed negated inner =>
    ((inner.set? flags).bind (foldAndNegate? flags negated)).map (Regex.ofSet flags)
  | .repetition least most isLazy inner =>
    match inner.resolve? flags with
    | some (regex, flags) => some (.rounds least most (isLazy == flags.swapGreed) regex, flags)
    | none => none
  | .group captures changes inner =>
    match inner.resolve? (flags.apply changes) with
    | some (regex, _) => some (if captures then .group regex else regex, flags)
    | none => none
  | .alternation branches => Expr.resolveBranches? flags [] branches
  | .concat items => Expr.resolveItems? flags [] items

/-- The meaning of items one after the other, behind those whose meanings are `found`, the last one
first. -/
def Expr.resolveItems? (flags : Flags) (found : List Regex) : List Expr → Option (Regex × Flags)
  | [] => some (.concat found, flags)
  | item :: items =>
    match item.resolve? flags with
    | none => none
    | some (regex, flags) => Expr.resolveItems? flags (regex :: found) items

/-- The meaning of branches, behind those whose meanings are `found`, the last one first. A switch
of flags in one branch is in force in the branches behind it. -/
def Expr.resolveBranches? (flags : Flags) (found : List Regex) :
    List Expr → Option (Regex × Flags)
  | [] => some (.alternation found.reverse, flags)
  | branch :: branches =>
    match branch.resolve? flags with
    | none => none
    | some (regex, flags) => Expr.resolveBranches? flags (regex :: found) branches

end

def Expr.regex? (e : Expr) : Option Regex := (e.resolve? Flags.initial).map (·.1)

namespace Regex

mutual

/-- Whether an expression consists of conditions on positions, so that one round of it does as much
as several. -/
def isIdle : Regex → Bool
  | .empty => true
  | .set _ _ => false
  | .look _ => true
  | .rounds _ most _ inner => most == some 0 || inner.isIdle
  | .group inner => inner.isIdle
  | .concat backwards => allIdle backwards
  | .alternation branches => allIdle branches

def allIdle : List Regex → Bool
  | [] => true
  | r :: rest => r.isIdle && allIdle rest

end

end Regex

end Registrar.Pattern
