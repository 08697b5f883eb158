import Registrar.Pattern.Matching
import Mathlib.Tactic.SplitIfs
import Mathlib.Tactic.Tauto

/-!
# What an expression matches

An expression leads from one position of a text to a later one, over the part of the text that it matches. Conditions
look at the characters on both sides of a position, so a position knows the whole text.

* `Pattern.Place` : a position in a text;
* `Pattern.Times` : a number of rounds, one after the other;
* `Regex.Matches` : what an expression leads to; `Regex.MatchesWhole` : what it says of a whole text;
* `Regex.Matches.text_eq`, `Regex.Matches.eq_of_isIdle` : the text stays, and so does the position if nothing is read;
* `Regex.Bounded` : repetitions ask for no more rounds than they allow;
* `CharSet.holds_ofRanges` : the members of a set that is put together from ranges.
-/

namespace Registrar

/-! ## Sets of characters -/

namespace CharSet

/-- A point lies in one of some ranges. -/
def InRanges (ranges : List (Nat × Nat)) (point : Nat) : Prop := ∃ r ∈ ranges, r.1 ≤ point ∧ point ≤ r.2

theorem inRanges_cons {r : Nat × Nat} {ranges : List (Nat × Nat)} {point : Nat} :
    InRanges (r :: ranges) point ↔ (r.1 ≤ point ∧ point ≤ r.2) ∨ InRanges ranges point := by
  simp [InRanges]

theorem holds_iff {set : CharSet} {point : Nat} : set.holds point = true ↔ InRanges set.ranges point := by
  simp [holds, InRanges]

/-- Ranges that overlap or touch are joined without loss, if they come in ascending order. -/
theorem inRanges_mergeOnto {found ranges : List (Nat × Nat)} {point : Nat}
    (hranges : ranges.Pairwise fun a b => a.1 ≤ b.1) (hfound : ∀ r ∈ ranges, ∀ last ∈ found.head?, last.1 ≤ r.1) :
    InRanges (mergeOnto found ranges) point ↔ InRanges found point ∨ InRanges ranges point := by
  induction ranges generalizing found with
  | nil => simp [mergeOnto, InRanges]
  | cons r ranges ih =>
    obtain ⟨hr, hranges⟩ := List.pairwise_cons.1 hranges
    unfold mergeOnto
    split
    · next last earlier =>
      have hlast : last.1 ≤ r.1 := hfound r (by simp) last (by simp)
      split
      · next htouch =>
        rw [ih hranges fun s hs l hl => by
          obtain rfl := Option.some.inj hl
          exact Nat.le_trans hlast (hr s hs)]
        simp only [inRanges_cons]
        -- The joined range has just the points of the two, since the second starts no later than behind the first.
        have hjoin : (last.1 ≤ point ∧ point ≤ max last.2 r.2) ↔
            (last.1 ≤ point ∧ point ≤ last.2) ∨ (r.1 ≤ point ∧ point ≤ r.2) := by omega
        rw [hjoin]
        tauto
      · rw [ih hranges fun s hs l hl => by
          obtain rfl := Option.some.inj hl
          exact hr s hs]
        simp only [inRanges_cons]
        tauto
    · rw [ih hranges fun s hs l hl => by
        obtain rfl := Option.some.inj hl
        exact hr s hs]
      simp only [inRanges_cons]
      tauto

theorem holds_ofRanges {ranges : List (Nat × Nat)} {point : Nat} :
    (ofRanges ranges).holds point = true ↔ InRanges ranges point := by
  have hsorted : (ranges.mergeSort fun a b => a.1 ≤ b.1).Pairwise fun a b => a.1 ≤ b.1 := by
    have hle : ∀ a b c : Nat × Nat, decide (a.1 ≤ b.1) = true → decide (b.1 ≤ c.1) = true → decide (a.1 ≤ c.1) = true :=
      fun a b c hab hbc => decide_eq_true (Nat.le_trans (of_decide_eq_true hab) (of_decide_eq_true hbc))
    have htotal : ∀ a b : Nat × Nat, (decide (a.1 ≤ b.1) || decide (b.1 ≤ a.1)) = true := fun a b => by
      simpa using Nat.le_total a.1 b.1
    exact (List.pairwise_mergeSort hle htotal ranges).imp of_decide_eq_true
  rw [holds_iff, ofRanges, inRanges_mergeOnto hsorted (by simp)]
  simp [InRanges]

theorem contains_unions {sets : List CharSet} {c : Char} :
    (unions sets).contains c = true ↔ ∃ set ∈ sets, set.contains c = true := by
  rw [contains, unions, holds_ofRanges]
  simp only [contains, holds_iff, InRanges, List.mem_flatMap]
  constructor
  · rintro ⟨r, ⟨set, hset, hr⟩, hpoint⟩
    exact ⟨set, hset, r, hr, hpoint⟩
  · rintro ⟨set, hset, r, hr, hpoint⟩
    exact ⟨r, ⟨set, hset, hr⟩, hpoint⟩

end CharSet

namespace Pattern

/-! ## Positions -/

/-- A position in a text: what stands in front of it, the nearest character first, and what stands behind it. -/
structure Place where
  /-- The characters in front, the nearest first. -/
  before : List Char
  /-- The characters behind. -/
  after : List Char
  deriving DecidableEq, Repr

namespace Place

/-- The text that a position lies in. -/
def text (p : Place) : List Char := p.before.reverse ++ p.after

/-- The start of a text. -/
def start (text : List Char) : Place := ⟨[], text⟩

/-- The end of a text. -/
def stop (text : List Char) : Place := ⟨text.reverse, []⟩

/-- Whether a condition holds at a position. -/
def Meets (p : Place) (condition : Look) : Prop := condition.holds p.before.head? p.after.head? = true

/-- Reading a member of a set leads from one position to the next. -/
def Reads (members : CharSet) (p q : Place) : Prop :=
  ∃ c rest, p.after = c :: rest ∧ members.contains c = true ∧ q = ⟨c :: p.before, rest⟩

theorem Reads.text_eq {members : CharSet} {p q : Place} (h : p.Reads members q) : q.text = p.text := by
  obtain ⟨c, rest, hafter, -, rfl⟩ := h
  simp [text, hafter]

end Place

/-! ## Rounds -/

/-- As many steps of a relation, one after the other. -/
def Times (R : Place → Place → Prop) : Nat → Place → Place → Prop
  | 0, p, q => p = q
  | n + 1, p, q => ∃ mid, R p mid ∧ Times R n mid q

section
variable {R : Place → Place → Prop} {p q : Place}

theorem times_one : Times R 1 p q ↔ R p q := by
  simp [Times]

theorem Times.add {m n : Nat} {mid : Place} (h : Times R m p mid) (h' : Times R n mid q) : Times R (m + n) p q := by
  induction m generalizing p with
  | zero =>
    obtain rfl : p = mid := h
    rwa [Nat.zero_add]
  | succ m ih =>
    obtain ⟨next, hnext, hrest⟩ := h
    rw [Nat.succ_add]
    exact ⟨next, hnext, ih hrest⟩

theorem Times.exists_of_add {m n : Nat} (h : Times R (m + n) p q) : ∃ mid, Times R m p mid ∧ Times R n mid q := by
  induction m generalizing p with
  | zero => exact ⟨p, rfl, by rwa [Nat.zero_add] at h⟩
  | succ m ih =>
    rw [Nat.succ_add] at h
    obtain ⟨next, hnext, hrest⟩ := h
    obtain ⟨mid, hmid, hend⟩ := ih hrest
    exact ⟨mid, ⟨next, hnext, hmid⟩, hend⟩

theorem Times.eq (hR : ∀ p q, R p q → p = q) {n : Nat} (h : Times R n p q) : p = q := by
  induction n generalizing p with
  | zero => exact h
  | succ n ih =>
    obtain ⟨mid, hmid, hrest⟩ := h
    exact (hR p mid hmid).trans (ih hrest)

theorem Times.of_self (h : R p p) (n : Nat) : Times R n p p := by
  induction n with
  | zero => rfl
  | succ n ih => exact ⟨p, h, ih⟩

theorem Times.text_eq (hR : ∀ p q, R p q → q.text = p.text) {n : Nat} (h : Times R n p q) : q.text = p.text := by
  induction n generalizing p with
  | zero => exact congrArg Place.text (Eq.symm h)
  | succ n ih =>
    obtain ⟨mid, hmid, hrest⟩ := h
    exact (ih hrest).trans (hR p mid hmid)

end

/-! ## Expressions -/

namespace Regex

mutual

/-- An expression leads from one position of a text to another. -/
def Matches : Regex → Place → Place → Prop
  | .empty, p, q => p = q
  | .set _ members, p, q => p.Reads members q
  | .look condition, p, q => p.Meets condition ∧ p = q
  | .rounds least most _ inner, p, q =>
    ∃ n, least ≤ n ∧ (∀ m ∈ most, n ≤ m) ∧ Times inner.Matches n p q
  | .group inner, p, q => inner.Matches p q
  | .concat backwards, p, q => MatchesAll backwards p q
  | .alternation branches, p, q => MatchesAny branches p q

/-- Expressions, of which the last is given first, lead from one position to another one after the other. -/
def MatchesAll : List Regex → Place → Place → Prop
  | [], p, q => p = q
  | r :: rest, p, q => ∃ mid, MatchesAll rest p mid ∧ r.Matches mid q

/-- One of some expressions leads from one position to another. -/
def MatchesAny : List Regex → Place → Place → Prop
  | [], _, _ => False
  | r :: rest, p, q => r.Matches p q ∨ MatchesAny rest p q

end

/-- The whole of a text, from its first to its last character, is matched. -/
def MatchesWhole (r : Regex) (text : List Char) : Prop := r.Matches (.start text) (.stop text)

mutual

/-- Repetitions in the expression ask for no more rounds than they allow. -/
def Bounded : Regex → Prop
  | .rounds least most _ inner => (∀ m ∈ most, least ≤ m) ∧ inner.Bounded
  | .group inner => inner.Bounded
  | .concat backwards => AllBounded backwards
  | .alternation branches => AllBounded branches
  | _ => True

/-- Repetitions in all of some expressions ask for no more rounds than they allow. -/
def AllBounded : List Regex → Prop
  | [] => True
  | r :: rest => r.Bounded ∧ AllBounded rest

end

mutual

/-- The text stays the same. -/
theorem Matches.text_eq : ∀ (r : Regex) {p q : Place}, r.Matches p q → q.text = p.text
  | .empty, _, _, h => congrArg Place.text (Eq.symm h)
  | .set _ _, _, _, h => Place.Reads.text_eq h
  | .look _, _, _, h => congrArg Place.text h.2.symm
  | .rounds _ _ _ inner, _, _, ⟨_, _, _, h⟩ => h.text_eq fun _ _ => Matches.text_eq inner
  | .group inner, _, _, h => Matches.text_eq inner h
  | .concat backwards, _, _, h => MatchesAll.text_eq backwards h
  | .alternation branches, _, _, h => MatchesAny.text_eq branches h

theorem MatchesAll.text_eq : ∀ (rs : List Regex) {p q : Place}, MatchesAll rs p q → q.text = p.text
  | [], _, _, h => congrArg Place.text (Eq.symm h)
  | r :: rest, _, _, ⟨_, hrest, hr⟩ => (Matches.text_eq r hr).trans (MatchesAll.text_eq rest hrest)

theorem MatchesAny.text_eq : ∀ (rs : List Regex) {p q : Place}, MatchesAny rs p q → q.text = p.text
  | [], _, _, h => h.elim
  | r :: _, _, _, .inl h => Matches.text_eq r h
  | _ :: rest, _, _, .inr h => MatchesAny.text_eq rest h

end

mutual

/-- What consists of conditions reads nothing. -/
theorem Matches.eq_of_isIdle : ∀ (r : Regex) {p q : Place}, r.isIdle = true → r.Matches p q → p = q
  | .empty, _, _, _, h => h
  | .look _, _, _, _, h => h.2
  | .rounds _ most _ inner, p, q, hidle, ⟨n, _, hmost, h⟩ => by
    rw [isIdle, Bool.or_eq_true] at hidle
    rcases hidle with hnone | hinner
    · obtain rfl : n = 0 := Nat.le_zero.1 (hmost 0 (beq_iff_eq.1 hnone))
      exact h
    · exact h.eq fun _ _ => Matches.eq_of_isIdle inner hinner
  | .group inner, _, _, hidle, h => Matches.eq_of_isIdle inner hidle h
  | .concat backwards, _, _, hidle, h => MatchesAll.eq_of_allIdle backwards hidle h
  | .alternation branches, _, _, hidle, h => MatchesAny.eq_of_allIdle branches hidle h

theorem MatchesAll.eq_of_allIdle : ∀ (rs : List Regex) {p q : Place}, allIdle rs = true → MatchesAll rs p q → p = q
  | [], _, _, _, h => h
  | r :: rest, _, _, hidle, ⟨_, hrest, hr⟩ => by
    rw [allIdle, Bool.and_eq_true] at hidle
    exact (MatchesAll.eq_of_allIdle rest hidle.2 hrest).trans (Matches.eq_of_isIdle r hidle.1 hr)

theorem MatchesAny.eq_of_allIdle : ∀ (rs : List Regex) {p q : Place}, allIdle rs = true → MatchesAny rs p q → p = q
  | [], _, _, _, h => h.elim
  | r :: rest, _, _, hidle, h => by
    rw [allIdle, Bool.and_eq_true] at hidle
    rcases h with h | h
    · exact Matches.eq_of_isIdle r hidle.1 h
    · exact MatchesAny.eq_of_allIdle rest hidle.2 h

end

theorem allBounded_iff {rs : List Regex} : AllBounded rs ↔ ∀ r ∈ rs, r.Bounded := by
  induction rs with
  | nil => simp [AllBounded]
  | cons r rest ih => simp [AllBounded, ih]

end Regex

end Pattern

end Registrar
