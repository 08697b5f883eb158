import Registrar.Pattern.Regex

/-!
# Automata

An automaton for a regular expression. Each state says what to do at a position of the text: read a
character, check a condition, or go on in two ways. `Regex.compile` puts the states of an expression
in front of a state that is there already: from the state that it returns, that one is reached over
exactly the texts that the expression matches. Each round of a repetition has states of its own.
-/

namespace Registrar.Pattern

/-- A state of an automaton. States are named by their indices. -/
inductive AutomatonState where
  | accept
  | read (members : CharSet) (next : Nat)
  | check (condition : Look) (next : Nat)
  | fork (first second : Nat)
  deriving Repr, DecidableEq

abbrev States := Array AutomatonState

def States.add (states : States) (state : AutomatonState) : Nat × States :=
  (states.size, states.push state)

/-- What adds the states of an expression in front of a state: the state to start in, and all
states. -/
abbrev Extension := Nat → States → Nat × States

def Extension.exactly (extend : Extension) : Nat → Extension
  | 0, next, states => (next, states)
  | count + 1, next, states =>
    let (entry, states) := extend next states
    exactly extend count entry states

/-- At most a number of rounds. After each, the expression may be left towards `exit`; `next` starts
the rounds that are there already. -/
def Extension.atMost (extend : Extension) (exit : Nat) : Nat → Extension
  | 0, next, states => (next, states)
  | count + 1, next, states =>
    let (entry, states) := extend next states
    let (entry, states) := states.add (.fork entry exit)
    atMost extend exit count entry states

/-- Any number of rounds. The state in front of them is added first, so that they can lead back to
it. -/
def Extension.loop (extend : Extension) : Extension := fun next states =>
  let (start, states) := states.add (.fork next next)
  let (entry, states) := extend start states
  (start, states.setIfInBounds start (.fork entry next))

/-- Rounds of an expression. Of an idle one, one round stands for all. -/
def Extension.rounds (extend : Extension) (idle : Bool) (least : Nat) (most : Option Nat) :
    Extension := fun next states =>
  if idle then
    if least = 0 then extend.atMost next (min 1 (most.getD 1)) next states else extend next states
  else
    let (entry, states) := match most with
      | some most => extend.atMost next (most - least) next states
      | none => extend.loop next states
    extend.exactly least entry states

def Regex.members? : Regex → Option CharSet
  | .set _ members => some members
  | _ => none

mutual

/-- Adds the states of an expression in front of the state `next`. -/
def Regex.compile : Regex → Extension
  | .empty, next, states => (next, states)
  | .set _ members, next, states => states.add (.read members next)
  | .look condition, next, states => states.add (.check condition next)
  | .rounds least most _ inner, next, states =>
    Extension.rounds inner.compile inner.isIdle least most next states
  | .group inner, next, states => inner.compile next states
  | .concat backwards, next, states => compileBackwards backwards next states
  | .alternation branches, next, states =>
    match branches.mapM Regex.members? with
    | some sets => states.add (.read (CharSet.unions sets) next)
    | none => compileBranches branches next none states

/-- Adds the states of expressions one after the other, of which the last is given first. -/
def compileBackwards : List Regex → Extension
  | [], next, states => (next, states)
  | r :: rest, next, states =>
    let (entry, states) := r.compile next states
    compileBackwards rest entry states

/-- Adds the states of branches in front of the state `next`. The branches before start in the state
`found`. -/
def compileBranches (branches : List Regex) (next : Nat) (found : Option Nat) (states : States) :
    Nat × States :=
  match branches with
  | [] => (found.getD next, states)
  | r :: rest =>
    let (entry, states) := r.compile next states
    match found with
    | none => compileBranches rest next (some entry) states
    | some other =>
      let (entry, states) := states.add (.fork other entry)
      compileBranches rest next (some entry) states

end

structure Automaton where
  states : States
  start : Nat
  deriving Repr, DecidableEq

/-- The automaton of an expression. Its first state accepts. -/
def Regex.automaton (r : Regex) : Automaton :=
  let (start, states) := r.compile 0 #[.accept]
  ⟨states, start⟩

end Registrar.Pattern
