import Registrar.Proofs.Matches

/-!
# What the states of an expression do

From the state in which the states of an expression start, the state behind them is reached over exactly the parts of a
text that the expression matches. The states are looked at inside any automaton that holds them, as later ones are added
and the first state of a loop is filled in after those behind it.

* `States.AcceptsIn`, `States.Accepts` : from a state and a position, the end is reached;
* `Extension.Realizes` : what states that are added do;
* `Extension.realizes_rounds` : rounds, for which an idle expression needs one at most;
* `Regex.realizes_compile` : the states of an expression.
-/

namespace Registrar.Pattern

namespace States

/-- From a state and a position, an accepting state is reached in as many steps. -/
inductive AcceptsIn (states : States) : Nat → Nat → Place → Prop
  | accept {s : Nat} {p : Place} (h : states[s]? = some .accept) : AcceptsIn states 0 s p
  | read {n s next : Nat} {members : CharSet} {p q : Place} (h : states[s]? = some (.read members next))
      (hread : p.Reads members q) (hnext : AcceptsIn states n next q) : AcceptsIn states (n + 1) s p
  | check {n s next : Nat} {condition : Look} {p : Place} (h : states[s]? = some (.check condition next))
      (hmeets : p.Meets condition) (hnext : AcceptsIn states n next p) : AcceptsIn states (n + 1) s p
  | first {n s first second : Nat} {p : Place} (h : states[s]? = some (.fork first second))
      (hnext : AcceptsIn states n first p) : AcceptsIn states (n + 1) s p
  | second {n s first second : Nat} {p : Place} (h : states[s]? = some (.fork first second))
      (hnext : AcceptsIn states n second p) : AcceptsIn states (n + 1) s p

/-- From a state and a position, an accepting state is reached. -/
def Accepts (states : States) (s : Nat) (p : Place) : Prop := ∃ n, states.AcceptsIn n s p

variable {states : States} {n s : Nat} {p q : Place}

theorem AcceptsIn.exists_of_read {members : CharSet} {next : Nat} (h : states[s]? = some (.read members next))
    (haccepts : states.AcceptsIn n s p) : ∃ q m, m ≤ n ∧ p.Reads members q ∧ states.AcceptsIn m next q := by
  cases haccepts with
  | read h' hread hnext =>
    cases h.symm.trans h'
    exact ⟨_, _, Nat.le_succ _, hread, hnext⟩
  | accept h' | check h' | first h' | second h' => cases h.symm.trans h'

theorem AcceptsIn.exists_of_check {condition : Look} {next : Nat} (h : states[s]? = some (.check condition next))
    (haccepts : states.AcceptsIn n s p) : p.Meets condition ∧ ∃ m ≤ n, states.AcceptsIn m next p := by
  cases haccepts with
  | check h' hmeets hnext =>
    cases h.symm.trans h'
    exact ⟨hmeets, _, Nat.le_succ _, hnext⟩
  | accept h' | read h' | first h' | second h' => cases h.symm.trans h'

theorem AcceptsIn.exists_of_fork {first second : Nat} (h : states[s]? = some (.fork first second))
    (haccepts : states.AcceptsIn n s p) : ∃ m < n, states.AcceptsIn m first p ∨ states.AcceptsIn m second p := by
  cases haccepts with
  | first h' hnext =>
    cases h.symm.trans h'
    exact ⟨_, Nat.lt_succ_self _, .inl hnext⟩
  | second h' hnext =>
    cases h.symm.trans h'
    exact ⟨_, Nat.lt_succ_self _, .inr hnext⟩
  | accept h' | read h' | check h' => cases h.symm.trans h'

theorem Accepts.of_read {members : CharSet} {next : Nat} (h : states[s]? = some (.read members next))
    (hread : p.Reads members q) : states.Accepts next q → states.Accepts s p :=
  fun ⟨n, hnext⟩ => ⟨n + 1, .read h hread hnext⟩

theorem Accepts.of_check {condition : Look} {next : Nat} (h : states[s]? = some (.check condition next))
    (hmeets : p.Meets condition) : states.Accepts next p → states.Accepts s p :=
  fun ⟨n, hnext⟩ => ⟨n + 1, .check h hmeets hnext⟩

theorem Accepts.of_first {first second : Nat} (h : states[s]? = some (.fork first second)) :
    states.Accepts first p → states.Accepts s p :=
  fun ⟨n, hnext⟩ => ⟨n + 1, .first h hnext⟩

theorem Accepts.of_second {first second : Nat} (h : states[s]? = some (.fork first second)) :
    states.Accepts second p → states.Accepts s p :=
  fun ⟨n, hnext⟩ => ⟨n + 1, .second h hnext⟩

/-- The states of one automaton from an index on, as far as they go, are there in another one, too. -/
def HeldBy (states host : States) (start : Nat) : Prop :=
  ∀ i, start ≤ i → i < states.size → host[i]? = states[i]?

theorem HeldBy.getElem?_add {host : States} {state : AutomatonState} {start : Nat}
    (h : (states.add state).2.HeldBy host start) (hstart : start ≤ states.size) :
    host[(states.add state).1]? = some state := by
  have hlast : host[states.size]? = (states.push state)[states.size]? := h _ hstart (by simp [add])
  rw [add, hlast, Array.getElem?_push_size]

theorem getElem?_add_of_lt {state : AutomatonState} {i : Nat} (h : i < states.size) :
    (states.add state).2[i]? = states[i]? := by
  rw [add, Array.getElem?_push, if_neg (Nat.ne_of_lt h)]

theorem size_add {state : AutomatonState} : (states.add state).2.size = states.size + 1 := Array.size_push _

end States

namespace Extension

/-- What states that are added do: from the first of them, `next` is reached over the parts of a text that lead from one
position to another. The states that were there before stay. -/
structure Realizes (extend : Extension) (R : Place → Place → Prop) : Prop where
  /-- States are added. -/
  size_le : ∀ next states, states.size ≤ (extend next states).2.size
  /-- The states before stay. -/
  keeps : ∀ next states i, i < states.size → (extend next states).2[i]? = states[i]?
  /-- Only those parts lead to `next`. -/
  sound : ∀ next states (host : States), (extend next states).2.HeldBy host states.size →
    ∀ {n p}, host.AcceptsIn n (extend next states).1 p → ∃ q m, m ≤ n ∧ R p q ∧ host.AcceptsIn m next q
  /-- All those parts lead to `next`. -/
  complete : ∀ next states (host : States), (extend next states).2.HeldBy host states.size →
    ∀ {p q}, R p q → host.Accepts next q → host.Accepts (extend next states).1 p

/-- First the states of one extension are added, then those of another in front of them. -/
def before (extend first : Extension) : Extension := fun next states =>
  first (extend next states).1 (extend next states).2

variable {extend first : Extension} {R S : Place → Place → Prop}

theorem Realizes.congr (h : extend.Realizes R) (hRS : ∀ p q, R p q ↔ S p q) : extend.Realizes S := by
  obtain rfl : R = S := funext fun p => funext fun q => propext (hRS p q)
  exact h

/-- What is held of two extensions is held of each. -/
theorem heldBy_before (hextend : extend.Realizes R) (hfirst : first.Realizes S) {next : Nat} {states host : States}
    (h : (extend.before first next states).2.HeldBy host states.size) :
    (extend next states).2.HeldBy host states.size ∧
      (extend.before first next states).2.HeldBy host (extend next states).2.size := by
  constructor
  · intro i hi hlt
    rw [h i hi (Nat.lt_of_lt_of_le hlt (hfirst.size_le _ _)), before, hfirst.keeps _ _ i hlt]
  · exact fun i hi hlt => h i (Nat.le_trans (hextend.size_le next states) hi) hlt

theorem realizes_before (hextend : extend.Realizes R) (hfirst : first.Realizes S) :
    (extend.before first).Realizes fun p q => ∃ mid, S p mid ∧ R mid q where
  size_le next states := Nat.le_trans (hextend.size_le next states) (hfirst.size_le _ _)
  keeps next states i hi := by
    rw [before, hfirst.keeps _ _ i (Nat.lt_of_lt_of_le hi (hextend.size_le _ _)), hextend.keeps _ _ i hi]
  sound next states host hheld n p haccepts := by
    obtain ⟨hlast, hrest⟩ := heldBy_before hextend hfirst hheld
    obtain ⟨mid, m, hm, hS, hmid⟩ := hfirst.sound _ _ host hrest haccepts
    obtain ⟨q, k, hk, hR, hq⟩ := hextend.sound _ _ host hlast hmid
    exact ⟨q, k, Nat.le_trans hk hm, ⟨mid, hS, hR⟩, hq⟩
  complete next states host hheld p q h haccepts := by
    obtain ⟨hlast, hrest⟩ := heldBy_before hextend hfirst hheld
    obtain ⟨mid, hS, hR⟩ := h
    exact hfirst.complete _ _ host hrest hS (hextend.complete _ _ host hlast hR haccepts)

/-- Nothing is added. -/
theorem realizes_none : Realizes (fun next states => (next, states)) fun p q => p = q where
  size_le _ _ := Nat.le_refl _
  keeps _ _ _ _ := rfl
  sound _ _ _ _ {n p} haccepts := ⟨p, n, Nat.le_refl n, rfl, haccepts⟩
  complete _ _ _ _ {_ _} h haccepts := h ▸ haccepts

/-- A single state is added that leads to `next`. -/
theorem realizes_add {state : Nat → AutomatonState}
    (hsound : ∀ {host : States} {s next n p}, host[s]? = some (state next) → host.AcceptsIn n s p →
      ∃ q m, m ≤ n ∧ R p q ∧ host.AcceptsIn m next q)
    (hcomplete : ∀ {host : States} {s next p q}, host[s]? = some (state next) → R p q → host.Accepts next q →
      host.Accepts s p) :
    Realizes (fun next states => states.add (state next)) R where
  size_le next states := by rw [States.size_add]; exact Nat.le_succ _
  keeps next states i hi := States.getElem?_add_of_lt hi
  sound next states host hheld n p haccepts := hsound (hheld.getElem?_add (Nat.le_refl _)) haccepts
  complete next states host hheld p q h haccepts := hcomplete (hheld.getElem?_add (Nat.le_refl _)) h haccepts

theorem realizes_read (members : CharSet) :
    Realizes (fun next states => states.add (.read members next)) fun p q => p.Reads members q :=
  realizes_add (fun h haccepts => haccepts.exists_of_read h) fun h hread => .of_read h hread

theorem realizes_check (condition : Look) :
    Realizes (fun next states => states.add (.check condition next)) fun p q => p.Meets condition ∧ p = q := by
  refine realizes_add (fun h haccepts => ?_) fun h hR haccepts => ?_
  · obtain ⟨hmeets, m, hm, hnext⟩ := haccepts.exists_of_check h
    exact ⟨_, m, hm, ⟨hmeets, rfl⟩, hnext⟩
  · obtain ⟨hmeets, rfl⟩ := hR
    exact .of_check h hmeets haccepts

/-! ## Rounds -/

theorem realizes_exactly (h : extend.Realizes R) (count : Nat) : (extend.exactly count).Realizes (Times R count) := by
  induction count with
  | zero => exact realizes_none
  | succ count ih =>
    refine (realizes_before h ih).congr fun p q => ⟨?_, fun htimes => ?_⟩
    · rintro ⟨mid, htimes, hR⟩
      exact htimes.add (times_one.2 hR)
    · obtain ⟨mid, hfirst, hlast⟩ := htimes.exists_of_add
      exact ⟨mid, hfirst, times_one.1 hlast⟩

section
variable (h : extend.Realizes R)
include h

theorem size_le_atMost (exit count next : Nat) (states : States) :
    states.size ≤ (extend.atMost exit count next states).2.size := by
  induction count generalizing next states with
  | zero => exact Nat.le_refl _
  | succ count ih =>
    calc states.size
      _ ≤ (extend next states).2.size := h.size_le next states
      _ ≤ ((extend next states).2.add (.fork (extend next states).1 exit)).2.size :=
        States.size_add ▸ Nat.le_succ _
      _ ≤ (extend.atMost exit (count + 1) next states).2.size := ih _ _

theorem keeps_atMost {exit count next i : Nat} {states : States} (hi : i < states.size) :
    (extend.atMost exit count next states).2[i]? = states[i]? := by
  induction count generalizing next states with
  | zero => rfl
  | succ count ih =>
    have hround : i < (extend next states).2.size := Nat.lt_of_lt_of_le hi (h.size_le _ _)
    rw [atMost, ih (States.size_add ▸ Nat.lt_succ_of_lt hround), States.getElem?_add_of_lt hround, h.keeps _ _ i hi]

/-- What is held of several rounds is held of the last one, of the fork in front of it, and of the rounds before. -/
theorem heldBy_atMost_succ {exit count next : Nat} {states host : States}
    (hheld : (extend.atMost exit (count + 1) next states).2.HeldBy host states.size) :
    let round := extend next states
    let forked := round.2.add (.fork round.1 exit)
    round.2.HeldBy host states.size ∧ host[forked.1]? = some (.fork round.1 exit) ∧
      (extend.atMost exit count forked.1 forked.2).2.HeldBy host forked.2.size := by
  intro round forked
  have hround : states.size ≤ round.2.size := h.size_le next states
  have hforked : forked.2.size = round.2.size + 1 := States.size_add
  have hsize : forked.2.size ≤ (extend.atMost exit count forked.1 forked.2).2.size := size_le_atMost h _ _ _ _
  have hold : forked.2.HeldBy host states.size := fun i hi hlt => by
    rw [hheld i hi (Nat.lt_of_lt_of_le hlt hsize), atMost]
    exact keeps_atMost h hlt
  refine ⟨fun i hi hlt => ?_, hold.getElem?_add hround, fun i hi hlt => hheld i (by omega) hlt⟩
  rw [hold i hi (by omega)]
  exact States.getElem?_add_of_lt hlt

/-- From the first of several rounds, `next` is reached behind all of them and `exit` behind any number. -/
theorem sound_atMost {exit count next : Nat} {states host : States}
    (hheld : (extend.atMost exit count next states).2.HeldBy host states.size) {n : Nat} {p : Place}
    (haccepts : host.AcceptsIn n (extend.atMost exit count next states).1 p) :
    ∃ q m k, m ≤ n ∧ k ≤ count ∧ Times R k p q ∧ (host.AcceptsIn m next q ∨ host.AcceptsIn m exit q) := by
  induction count generalizing next states with
  | zero => exact ⟨p, n, 0, Nat.le_refl n, Nat.le_refl 0, rfl, .inl haccepts⟩
  | succ count ih =>
    obtain ⟨hround, hfork, hrest⟩ := heldBy_atMost_succ h hheld
    obtain ⟨mid, m, k, hm, hk, htimes, hmid | hexit⟩ := ih hrest haccepts
    · obtain ⟨m', hm', hentry | hexit⟩ := hmid.exists_of_fork hfork
      · obtain ⟨q, l, hl, hR, hq⟩ := h.sound _ _ host hround hentry
        exact ⟨q, l, k + 1, by omega, by omega, htimes.add (times_one.2 hR), .inl hq⟩
      · exact ⟨mid, m', k, by omega, by omega, htimes, .inr hexit⟩
    · exact ⟨mid, m, k, hm, by omega, htimes, .inr hexit⟩

theorem complete_atMost_all {exit count next : Nat} {states host : States}
    (hheld : (extend.atMost exit count next states).2.HeldBy host states.size) {p q : Place}
    (htimes : Times R count p q) (haccepts : host.Accepts next q) :
    host.Accepts (extend.atMost exit count next states).1 p := by
  induction count generalizing next states q with
  | zero =>
    obtain rfl : p = q := htimes
    exact haccepts
  | succ count ih =>
    obtain ⟨hround, hfork, hrest⟩ := heldBy_atMost_succ h hheld
    obtain ⟨mid, hfirst, hlast⟩ := htimes.exists_of_add
    exact ih hrest hfirst (.of_first hfork (h.complete _ _ host hround (times_one.1 hlast) haccepts))

theorem complete_atMost {exit count next : Nat} {states host : States}
    (hheld : (extend.atMost exit count next states).2.HeldBy host states.size)
    (hexit : ∀ q, host.Accepts exit q → host.Accepts next q) {k : Nat} (hk : k ≤ count) {p q : Place}
    (htimes : Times R k p q) (haccepts : host.Accepts exit q) :
    host.Accepts (extend.atMost exit count next states).1 p := by
  induction count generalizing next states with
  | zero =>
    obtain rfl : k = 0 := Nat.le_zero.1 hk
    obtain rfl : p = q := htimes
    exact hexit p haccepts
  | succ count ih =>
    rcases Nat.lt_or_eq_of_le hk with hk | rfl
    · obtain ⟨-, hfork, hrest⟩ := heldBy_atMost_succ h hheld
      exact ih hrest (fun _ => .of_second hfork) (Nat.le_of_lt_succ hk)
    · exact complete_atMost_all h hheld htimes (hexit q haccepts)

/-- Rounds of which any may be the last. -/
theorem realizes_atMost (count : Nat) :
    Realizes (fun next states => extend.atMost next count next states) fun p q => ∃ k ≤ count, Times R k p q where
  size_le next states := size_le_atMost h _ _ _ _
  keeps next states i hi := keeps_atMost h hi
  sound next states host hheld n p haccepts := by
    obtain ⟨q, m, k, hm, hk, htimes, hq | hq⟩ := sound_atMost h hheld haccepts <;>
    exact ⟨q, m, hm, ⟨k, hk, htimes⟩, hq⟩
  complete next states host hheld p q hR haccepts := by
    obtain ⟨k, hk, htimes⟩ := hR
    exact complete_atMost h hheld (fun _ => id) hk htimes haccepts

theorem size_loop (next : Nat) (states : States) :
    (extend.loop next states).2.size = (extend states.size (states.add (.fork next next)).2).2.size ∧
      states.size < (extend.loop next states).2.size := by
  have hround : (states.add (.fork next next)).2.size ≤ (extend states.size (states.add (.fork next next)).2).2.size :=
    h.size_le _ _
  rw [States.size_add] at hround
  have hsize : (extend.loop next states).2.size = (extend states.size (states.add (.fork next next)).2).2.size :=
    Array.size_setIfInBounds
  exact ⟨hsize, by omega⟩

omit h in
/-- Apart from its first state, a loop has the states of a round. -/
theorem getElem?_loop_of_ne {next i : Nat} {states : States} (hi : i ≠ states.size) :
    (extend.loop next states).2[i]? = (extend states.size (states.add (.fork next next)).2).2[i]? :=
  Array.getElem?_setIfInBounds_ne (Ne.symm hi)

theorem getElem?_loop_self (next : Nat) (states : States) :
    (extend.loop next states).2[states.size]? =
      some (.fork (extend states.size (states.add (.fork next next)).2).1 next) := by
  obtain ⟨hsize, hlt⟩ := size_loop h next states
  exact Array.getElem?_setIfInBounds_self_of_lt (hsize ▸ hlt)

/-- What is held of a loop: its fork, and the states of a round. -/
theorem heldBy_loop {next : Nat} {states host : States}
    (hheld : (extend.loop next states).2.HeldBy host states.size) :
    let round := extend states.size (states.add (.fork next next)).2
    host[states.size]? = some (.fork round.1 next) ∧ round.2.HeldBy host (states.add (.fork next next)).2.size := by
  obtain ⟨hsize, hlt⟩ := size_loop h next states
  refine ⟨?_, fun i hi hround => ?_⟩
  · rw [hheld _ (Nat.le_refl _) hlt, getElem?_loop_self h]
  · rw [States.size_add] at hi
    rw [hheld i (by omega) (hsize ▸ hround), getElem?_loop_of_ne (by omega)]

/-- Any number of rounds. -/
theorem realizes_loop : extend.loop.Realizes fun p q => ∃ k, Times R k p q where
  size_le next states := Nat.le_of_lt (size_loop h next states).2
  keeps next states i hi := by
    rw [getElem?_loop_of_ne (Nat.ne_of_lt hi), h.keeps _ _ i (States.size_add ▸ Nat.lt_succ_of_lt hi),
      States.getElem?_add_of_lt hi]
  sound next states host hheld n := by
    obtain ⟨hfork, hround⟩ := heldBy_loop h hheld
    -- A round leads back to the fork in fewer steps.
    induction n using Nat.strongRecOn with
    | ind n ih =>
      intro p haccepts
      obtain ⟨m, hm, hentry | hnext⟩ := haccepts.exists_of_fork hfork
      · obtain ⟨mid, l, hl, hR, hmid⟩ := h.sound _ _ host hround hentry
        obtain ⟨q, l', hl', ⟨k, htimes⟩, hq⟩ := ih l (by omega) hmid
        exact ⟨q, l', by omega, ⟨k + 1, mid, hR, htimes⟩, hq⟩
      · exact ⟨p, m, by omega, ⟨0, rfl⟩, hnext⟩
  complete next states host hheld p q hR haccepts := by
    obtain ⟨hfork, hround⟩ := heldBy_loop h hheld
    obtain ⟨k, htimes⟩ := hR
    induction k generalizing p with
    | zero =>
      obtain rfl : p = q := htimes
      exact .of_second hfork haccepts
    | succ k ih =>
      obtain ⟨mid, hfirst, hrest⟩ := htimes
      exact .of_first hfork (h.complete _ _ host hround hfirst (ih mid hrest))

/-- Rounds of conditions: one round does as much as several. -/
theorem realizes_rounds_idle (hsame : ∀ p q, R p q → p = q) {least : Nat} {most : Option Nat}
    (hbounds : ∀ m ∈ most, least ≤ m) :
    (extend.rounds true least most).Realizes fun p q =>
      ∃ n, least ≤ n ∧ (∀ m ∈ most, n ≤ m) ∧ Times R n p q := by
  by_cases hleast : least = 0
  · have hrounds : extend.rounds true least most =
        fun next states => extend.atMost next (min 1 (most.getD 1)) next states := by
      funext next states
      simp [rounds, hleast]
    rw [hrounds]
    refine (realizes_atMost h _).congr fun p q => ⟨?_, ?_⟩
    · rintro ⟨k, hk, htimes⟩
      refine ⟨k, hleast ▸ Nat.zero_le k, ?_, htimes⟩
      rintro m rfl
      exact Nat.le_trans hk (Nat.min_le_right _ _)
    · rintro ⟨n, -, -, htimes⟩
      exact ⟨0, Nat.zero_le _, htimes.eq hsame⟩
  · have hrounds : extend.rounds true least most = extend := by
      funext next states
      simp [rounds, hleast]
    rw [hrounds]
    refine h.congr fun p q => ⟨fun hR => ?_, ?_⟩
    · obtain rfl := hsame p q hR
      exact ⟨least, Nat.le_refl _, hbounds, .of_self hR least⟩
    · rintro ⟨n, hn, -, htimes⟩
      obtain ⟨n, rfl⟩ := Nat.exists_eq_succ_of_ne_zero (n := n) (by omega)
      obtain ⟨mid, hR, hrest⟩ := htimes
      obtain rfl := hrest.eq hsame
      exact hR

/-- Rounds of an expression, of which an idle one needs a single one. -/
theorem realizes_rounds {idle : Bool} (hidle : idle = true → ∀ p q, R p q → p = q) {least : Nat} {most : Option Nat}
    (hbounds : ∀ m ∈ most, least ≤ m) :
    (extend.rounds idle least most).Realizes fun p q =>
      ∃ n, least ≤ n ∧ (∀ m ∈ most, n ≤ m) ∧ Times R n p q := by
  cases idle with
  | true => exact realizes_rounds_idle h (hidle rfl) hbounds
  | false =>
    cases most with
    | none =>
      refine (realizes_before (realizes_loop h) (realizes_exactly h least)).congr fun p q => ⟨?_, ?_⟩
      · rintro ⟨mid, hfirst, k, hrest⟩
        exact ⟨least + k, Nat.le_add_right _ _, by simp, hfirst.add hrest⟩
      · rintro ⟨n, hn, -, htimes⟩
        obtain ⟨k, rfl⟩ := Nat.exists_eq_add_of_le hn
        obtain ⟨mid, hfirst, hrest⟩ := htimes.exists_of_add
        exact ⟨mid, hfirst, k, hrest⟩
    | some most =>
      have hle : least ≤ most := hbounds most rfl
      refine (realizes_before (realizes_atMost h (most - least)) (realizes_exactly h least)).congr
        fun p q => ⟨?_, ?_⟩
      · rintro ⟨mid, hfirst, k, hk, hrest⟩
        refine ⟨least + k, Nat.le_add_right _ _, ?_, hfirst.add hrest⟩
        rintro m ⟨⟩
        omega
      · rintro ⟨n, hn, hmost, htimes⟩
        obtain ⟨k, rfl⟩ := Nat.exists_eq_add_of_le hn
        obtain ⟨mid, hfirst, hrest⟩ := htimes.exists_of_add
        have hk : least + k ≤ most := hmost most rfl
        exact ⟨mid, hfirst, k, by omega, hrest⟩

end

end Extension

/-! ## Expressions -/

namespace Regex

theorem matches_iff_of_members? {r : Regex} {set : CharSet} (h : r.members? = some set) {p q : Place} :
    r.Matches p q ↔ p.Reads set q := by
  cases r with
  | set ascii members =>
    obtain rfl := Option.some.inj h
    exact Iff.rfl
  | _ => cases h

/-- A choice between sets reads a member of one of them. -/
theorem matchesAny_iff_reads {branches : List Regex} {sets : List CharSet} (h : branches.mapM members? = some sets)
    {p q : Place} : MatchesAny branches p q ↔ p.Reads (.unions sets) q := by
  have hsets : MatchesAny branches p q ↔ ∃ set ∈ sets, p.Reads set q := by
    induction branches generalizing sets with
    | nil =>
      obtain rfl : [] = sets := by simpa using h
      simp [MatchesAny]
    | cons r rest ih =>
      simp only [List.mapM_cons, Option.pure_def, Option.bind_eq_bind, Option.bind_eq_some_iff, Option.some.injEq] at h
      obtain ⟨set, hset, sets', hsets', rfl⟩ := h
      simp [MatchesAny, matches_iff_of_members? hset, ih hsets']
  rw [hsets]
  constructor
  · rintro ⟨set, hset, c, rest, hafter, hc, rfl⟩
    exact ⟨c, rest, hafter, CharSet.contains_unions.2 ⟨set, hset, hc⟩, rfl⟩
  · rintro ⟨c, rest, hafter, hc, rfl⟩
    obtain ⟨set, hset, hc⟩ := CharSet.contains_unions.1 hc
    exact ⟨set, hset, c, rest, hafter, hc, rfl⟩

theorem realizes_compileBackwards {rs : List Regex} (h : ∀ r ∈ rs, r.compile.Realizes r.Matches) :
    Extension.Realizes (compileBackwards rs) (MatchesAll rs) := by
  induction rs with
  | nil => exact Extension.realizes_none
  | cons r rest ih =>
    exact Extension.realizes_before (h r List.mem_cons_self) (ih fun r' hr' => h r' (List.mem_cons_of_mem r hr'))

/-! ### Branches -/

/-- Puts a fork in front of the branches before and a new one, if there are branches before. -/
def joinBranch (found : Option Nat) (entry : Nat) (states : States) : Nat × States :=
  match found with
  | none => (entry, states)
  | some other => states.add (.fork other entry)

theorem compileBranches_cons (r : Regex) (rest : List Regex) (next : Nat) (found : Option Nat) (states : States) :
    compileBranches (r :: rest) next found states =
      let branch := r.compile next states
      let joined := joinBranch found branch.1 branch.2
      compileBranches rest next (some joined.1) joined.2 := by
  cases found <;> rfl

section
variable {found : Option Nat} {entry : Nat} {states host : States}

theorem size_le_joinBranch : states.size ≤ (joinBranch found entry states).2.size := by
  cases found with
  | none => exact Nat.le_refl _
  | some other =>
    rw [joinBranch, States.size_add]
    exact Nat.le_succ _

theorem keeps_joinBranch {i : Nat} (hi : i < states.size) : (joinBranch found entry states).2[i]? = states[i]? := by
  cases found with
  | none => rfl
  | some other => exact States.getElem?_add_of_lt hi

theorem sound_joinBranch {start n : Nat} {p : Place} (hheld : (joinBranch found entry states).2.HeldBy host start)
    (hstart : start ≤ states.size) (haccepts : host.AcceptsIn n (joinBranch found entry states).1 p) :
    ∃ m ≤ n, host.AcceptsIn m entry p ∨ ∃ other ∈ found, host.AcceptsIn m other p := by
  cases found with
  | none => exact ⟨n, Nat.le_refl n, .inl haccepts⟩
  | some other =>
    obtain ⟨m, hm, hother | hentry⟩ := haccepts.exists_of_fork (hheld.getElem?_add hstart)
    · exact ⟨m, Nat.le_of_lt hm, .inr ⟨other, rfl, hother⟩⟩
    · exact ⟨m, Nat.le_of_lt hm, .inl hentry⟩

theorem complete_joinBranch {start : Nat} {p : Place} (hheld : (joinBranch found entry states).2.HeldBy host start)
    (hstart : start ≤ states.size) (haccepts : host.Accepts entry p ∨ ∃ other ∈ found, host.Accepts other p) :
    host.Accepts (joinBranch found entry states).1 p := by
  cases found with
  | none =>
    obtain haccepts | ⟨_, hother, -⟩ := haccepts
    · exact haccepts
    · cases hother
  | some other =>
    have hfork := hheld.getElem?_add hstart
    obtain haccepts | ⟨_, ⟨⟩, hother⟩ := haccepts
    · exact .of_second hfork haccepts
    · exact .of_first hfork hother

end

section
variable {branches : List Regex} (h : ∀ r ∈ branches, r.compile.Realizes r.Matches)
include h

theorem size_le_compileBranches (next : Nat) (found : Option Nat) (states : States) :
    states.size ≤ (compileBranches branches next found states).2.size := by
  induction branches generalizing found states with
  | nil => exact Nat.le_refl _
  | cons r rest ih =>
    rw [compileBranches_cons]
    calc states.size
      _ ≤ (r.compile next states).2.size := (h r List.mem_cons_self).size_le next states
      _ ≤ _ := size_le_joinBranch
      _ ≤ _ := ih (fun r' hr' => h r' (List.mem_cons_of_mem r hr')) _ _

theorem keeps_compileBranches {next i : Nat} {found : Option Nat} {states : States} (hi : i < states.size) :
    (compileBranches branches next found states).2[i]? = states[i]? := by
  induction branches generalizing found states with
  | nil => rfl
  | cons r rest ih =>
    have hr := h r List.mem_cons_self
    have hbranch : i < (r.compile next states).2.size := Nat.lt_of_lt_of_le hi (hr.size_le _ _)
    rw [compileBranches_cons, ih (fun r' hr' => h r' (List.mem_cons_of_mem r hr'))
      (Nat.lt_of_lt_of_le hbranch size_le_joinBranch), keeps_joinBranch hbranch, hr.keeps _ _ i hi]

end

/-- What is held of branches is held of the first, of what joins it with those before, and of the others. -/
theorem heldBy_compileBranches_cons {r : Regex} {rest : List Regex}
    (h : ∀ r' ∈ r :: rest, r'.compile.Realizes r'.Matches) {next : Nat} {found : Option Nat} {states host : States}
    (hheld : (compileBranches (r :: rest) next found states).2.HeldBy host states.size) :
    let branch := r.compile next states
    let joined := joinBranch found branch.1 branch.2
    branch.2.HeldBy host states.size ∧ joined.2.HeldBy host states.size ∧
      (compileBranches rest next (some joined.1) joined.2).2.HeldBy host joined.2.size := by
  intro branch joined
  rw [compileBranches_cons] at hheld
  have hrest : ∀ r' ∈ rest, r'.compile.Realizes r'.Matches := fun r' hr' => h r' (List.mem_cons_of_mem r hr')
  have hbranch : states.size ≤ branch.2.size := (h r List.mem_cons_self).size_le next states
  have hsize : joined.2.size ≤ (compileBranches rest next (some joined.1) joined.2).2.size :=
    size_le_compileBranches hrest _ _ _
  have hjoin : branch.2.size ≤ joined.2.size := size_le_joinBranch
  have hjoined : joined.2.HeldBy host states.size := fun i hi hlt => by
    rw [hheld i hi (Nat.lt_of_lt_of_le hlt hsize)]
    exact keeps_compileBranches hrest hlt
  refine ⟨fun i hi hlt => ?_, hjoined, fun i hi hlt => hheld i (by omega) hlt⟩
  rw [hjoined i hi (by omega)]
  exact keeps_joinBranch hlt

/-- Branches behind those before, or a first branch. -/
theorem sound_compileBranches {branches : List Regex} (h : ∀ r ∈ branches, r.compile.Realizes r.Matches)
    {next n : Nat} {found : Option Nat} {states host : States} {p : Place} (hsome : branches = [] → found.isSome = true)
    (hheld : (compileBranches branches next found states).2.HeldBy host states.size)
    (haccepts : host.AcceptsIn n (compileBranches branches next found states).1 p) :
    ∃ m ≤ n, (∃ q, MatchesAny branches p q ∧ host.AcceptsIn m next q) ∨
      ∃ other ∈ found, host.AcceptsIn m other p := by
  induction branches generalizing found states with
  | nil =>
    obtain ⟨other, rfl⟩ := Option.isSome_iff_exists.1 (hsome rfl)
    exact ⟨n, Nat.le_refl n, .inr ⟨other, rfl, haccepts⟩⟩
  | cons r rest ih =>
    obtain ⟨hbranch, hjoined, hrest⟩ := heldBy_compileBranches_cons h hheld
    have hr := h r List.mem_cons_self
    rw [compileBranches_cons] at haccepts
    obtain ⟨m, hm, ⟨q, hany, hq⟩ | ⟨_, ⟨⟩, hother⟩⟩ :=
      ih (fun r' hr' => h r' (List.mem_cons_of_mem r hr')) (fun _ => rfl) hrest haccepts
    · exact ⟨m, hm, .inl ⟨q, .inr hany, hq⟩⟩
    · obtain ⟨m', hm', hentry | hfound⟩ := sound_joinBranch hjoined (hr.size_le _ _) hother
      · obtain ⟨q, k, hk, hmatches, hq⟩ := hr.sound _ _ host hbranch hentry
        exact ⟨k, by omega, .inl ⟨q, .inl hmatches, hq⟩⟩
      · exact ⟨m', by omega, .inr hfound⟩

theorem complete_compileBranches {branches : List Regex} (h : ∀ r ∈ branches, r.compile.Realizes r.Matches)
    {next : Nat} {found : Option Nat} {states host : States} {p : Place}
    (hheld : (compileBranches branches next found states).2.HeldBy host states.size)
    (haccepts : (∃ q, MatchesAny branches p q ∧ host.Accepts next q) ∨ ∃ other ∈ found, host.Accepts other p) :
    host.Accepts (compileBranches branches next found states).1 p := by
  induction branches generalizing found states with
  | nil =>
    obtain ⟨_, hany, -⟩ | ⟨_, ⟨⟩, hother⟩ := haccepts
    · exact hany.elim
    · exact hother
  | cons r rest ih =>
    obtain ⟨hbranch, hjoined, hrest⟩ := heldBy_compileBranches_cons h hheld
    have hr := h r List.mem_cons_self
    rw [compileBranches_cons]
    refine ih (fun r' hr' => h r' (List.mem_cons_of_mem r hr')) hrest ?_
    obtain ⟨q, hmatches | hany, hq⟩ | hfound := haccepts
    · exact .inr ⟨_, rfl, complete_joinBranch hjoined (hr.size_le _ _)
        (.inl (hr.complete _ _ host hbranch hmatches hq))⟩
    · exact .inl ⟨q, hany, hq⟩
    · exact .inr ⟨_, rfl, complete_joinBranch hjoined (hr.size_le _ _) (.inr hfound)⟩

theorem realizes_compile_alternation {branches : List Regex} (h : ∀ r ∈ branches, r.compile.Realizes r.Matches) :
    (Regex.alternation branches).compile.Realizes (MatchesAny branches) := by
  cases hsets : branches.mapM members? with
  | some sets =>
    have hread : (Regex.alternation branches).compile = fun next states => states.add (.read (.unions sets) next) := by
      funext next states
      simp [compile, hsets]
    rw [hread]
    exact (Extension.realizes_read _).congr fun p q => (matchesAny_iff_reads hsets).symm
  | none =>
    have hbranches : (Regex.alternation branches).compile = fun next states =>
        compileBranches branches next none states := by
      funext next states
      simp [compile, hsets]
    have hne : branches ≠ [] := by
      rintro rfl
      cases hsets
    rw [hbranches]
    refine ⟨fun next states => size_le_compileBranches h next none states,
      fun next states i hi => keeps_compileBranches h hi, fun next states host hheld n p haccepts => ?_,
      fun next states host hheld p q hany hq => complete_compileBranches h hheld (.inl ⟨q, hany, hq⟩)⟩
    obtain ⟨m, hm, ⟨q, hany, hq⟩ | ⟨_, hother, -⟩⟩ :=
      sound_compileBranches h (fun hnil => absurd hnil hne) hheld haccepts
    · exact ⟨q, m, hm, hany, hq⟩
    · cases hother

mutual

/-- The states of an expression lead to the state behind them over just the parts of a text that it matches. -/
theorem realizes_compile : ∀ r : Regex, r.Bounded → r.compile.Realizes r.Matches
  | .empty, _ => Extension.realizes_none
  | .set _ members, _ => Extension.realizes_read members
  | .look condition, _ => Extension.realizes_check condition
  | .rounds _ _ _ inner, h =>
    Extension.realizes_rounds (realizes_compile inner h.2) (fun hidle _ _ => Matches.eq_of_isIdle inner hidle) h.1
  | .group inner, h => realizes_compile inner h
  | .concat backwards, h => realizes_compileBackwards (realizes_compile_of_mem backwards h)
  | .alternation branches, h => realizes_compile_alternation (realizes_compile_of_mem branches h)

theorem realizes_compile_of_mem : ∀ rs : List Regex, AllBounded rs → ∀ r ∈ rs, r.compile.Realizes r.Matches
  | r :: rest, h, r', hr' => by
    rcases List.mem_cons.1 hr' with heq | hr'
    · exact heq ▸ realizes_compile r h.1
    · exact realizes_compile_of_mem rest h.2 r' hr'

end

end Regex

end Registrar.Pattern
