import Registrar.Proofs.Enclosing
import Registrar.Proofs.Matches

/-!
# Bounds of repetitions

A pattern is read only if its repetitions ask for no more rounds than they allow, and its meaning keeps that.

* `read?_bounded`, `rounds_bounded` : one round of reading, and all of them;
* `Expr.resolve?_bounded` : the meaning of a pattern;
* `Expr.bounded_of_read?` : both together.
-/

namespace Registrar.Pattern

namespace Expr

mutual

/-- Repetitions in the pattern ask for no more rounds than they allow. -/
def Bounded : Expr → Prop
  | .repetition least most _ inner => (∀ m ∈ most, least ≤ m) ∧ inner.Bounded
  | .group _ _ inner => inner.Bounded
  | .alternation branches => AllBounded branches
  | .concat items => AllBounded items
  | _ => True

/-- Repetitions in all of some patterns ask for no more rounds than they allow. -/
def AllBounded : List Expr → Prop
  | [] => True
  | e :: rest => e.Bounded ∧ AllBounded rest

end

theorem allBounded_iff {es : List Expr} : AllBounded es ↔ ∀ e ∈ es, e.Bounded := by
  induction es with
  | nil => simp [AllBounded]
  | cons e rest ih => simp [AllBounded, ih]

theorem bounded_ofItems {items : List Expr} (h : ∀ e ∈ items, e.Bounded) : (ofItems items).Bounded := by
  match items with
  | [] => trivial
  | [e] => exact h e List.mem_cons_self
  | e :: e' :: rest => exact allBounded_iff.2 fun e'' he'' => h e'' (List.mem_reverse.1 he'')

theorem bounded_alternation {branches : List Expr} {here : Expr} (h : ∀ e ∈ branches, e.Bounded)
    (hhere : here.Bounded) : (alternation (here :: branches).reverse).Bounded :=
  allBounded_iff.2 fun e he => by
    rcases List.mem_cons.1 (List.mem_reverse.1 he) with rfl | he
    · exact hhere
    · exact h e he

end Expr

/-- Repetitions in an open part ask for no more rounds than they allow. -/
def Frame.Bounded : Frame → Prop
  | .group before _ _ _ => ∀ e ∈ before, e.Bounded
  | .alternation branches => ∀ e ∈ branches, e.Bounded

namespace ReaderState

/-- Repetitions that were read ask for no more rounds than they allow. -/
structure Bounded (s : ReaderState) : Prop where
  /-- Those of the part being read. -/
  items : ∀ e ∈ s.items, e.Bounded
  /-- Those of the parts still open. -/
  stack : ∀ f ∈ s.stack, f.Bounded

variable {s s' : ReaderState}

theorem Bounded.here (h : s.Bounded) : (Expr.ofItems s.items).Bounded := Expr.bounded_ofItems h.items

/-- An item is added. -/
theorem Bounded.add (h : s.Bounded) {e : Expr} (he : e.Bounded) :
    ({ s with items := e :: s.items } : ReaderState).Bounded :=
  ⟨List.forall_mem_cons.2 ⟨he, h.items⟩, h.stack⟩

theorem Bounded.opened (h : s.Bounded) (captures : Bool) (changes : FlagChanges) (names : List (List Char)) :
    (s.opened captures changes names).Bounded :=
  ⟨List.forall_mem_nil _, List.forall_mem_cons.2 ⟨h.items, h.stack⟩⟩

theorem Bounded.of_openNamed? (h : s.Bounded) {text rest : List Char} (hopen : openNamed? s text = some (s', rest)) :
    s'.Bounded := by
  obtain ⟨p, -, hp⟩ := Option.bind_eq_some_iff.1 hopen
  split_ifs at hp
  cases hp
  exact h.opened _ _ _

theorem Bounded.of_switch? (h : s.Bounded) {switches : FlagChanges × Bool} (hswitch : switch? s switches = some s') :
    s'.Bounded := by
  unfold switch? at hswitch
  split_ifs at hswitch
  · cases hswitch
    exact h.opened _ _ _
  · cases hswitch
    exact ⟨(h.add (e := .flags switches.1) trivial).items, h.stack⟩

theorem Bounded.of_openGroup? (h : s.Bounded) {text rest : List Char} (hopen : openGroup? s text = some (s', rest)) :
    s'.Bounded := by
  by_cases hmark : ∃ rest, skip s.verbose text = '?' :: rest
  · obtain ⟨rest', hmark⟩ := hmark
    rw [openGroup?_of_mark hmark, openMarked?] at hopen
    split_ifs at hopen
    · exact h.of_openNamed? hopen
    · exact h.of_openNamed? hopen
    · obtain ⟨p, -, hp⟩ := Option.bind_eq_some_iff.1 hopen
      obtain ⟨s'', hs'', heq⟩ := Option.map_eq_some_iff.1 hp
      cases heq
      exact h.of_switch? hs''
  · rw [openGroup?_of_noMark fun rest h => hmark ⟨rest, h⟩] at hopen
    cases hopen
    exact h.opened _ _ _

theorem Bounded.of_closeGroup? (h : s.Bounded) (hclose : closeGroup? s = some s') : s'.Bounded := by
  have hhere := h.here
  unfold closeGroup? at hclose
  split at hclose
  · next before captures changes verbose stack hstack =>
    cases hclose
    have hframes := List.forall_mem_cons.1 (hstack ▸ h.stack)
    exact ⟨List.forall_mem_cons.2 ⟨hhere, hframes.1⟩, hframes.2⟩
  · next branches before captures changes verbose stack hstack =>
    cases hclose
    have hframes := List.forall_mem_cons.1 (hstack ▸ h.stack)
    have hgroup := List.forall_mem_cons.1 hframes.2
    exact ⟨List.forall_mem_cons.2 ⟨Expr.bounded_alternation hframes.1 hhere, hgroup.1⟩, hgroup.2⟩
  · cases hclose

theorem Bounded.closeBranch (h : s.Bounded) : (closeBranch s).Bounded := by
  have hhere := h.here
  unfold Pattern.closeBranch
  split
  · next branches stack hstack =>
    have hframes := List.forall_mem_cons.1 (hstack ▸ h.stack)
    exact ⟨List.forall_mem_nil _, List.forall_mem_cons.2 ⟨List.forall_mem_cons.2 ⟨hhere, hframes.1⟩, hframes.2⟩⟩
  · exact ⟨List.forall_mem_nil _, List.forall_mem_cons.2 ⟨List.forall_mem_singleton.2 hhere, h.stack⟩⟩

theorem Bounded.of_closeAll? (h : s.Bounded) {e : Expr} (hclose : closeAll? s = some e) : e.Bounded := by
  have hhere := h.here
  unfold closeAll? at hclose
  split at hclose
  · cases hclose
    exact hhere
  · next branches hstack =>
    cases hclose
    exact Expr.bounded_alternation (h.stack (.alternation branches) (hstack ▸ List.mem_cons_self)) hhere
  · cases hclose

theorem Bounded.of_repeatLast? (h : s.Bounded) {least : Nat} {most : Option Nat} (hmost : ∀ m ∈ most, least ≤ m)
    {text rest : List Char} (hrepeat : repeatLast? s least most text = some (s', rest)) : s'.Bounded := by
  unfold repeatLast? at hrepeat
  split at hrepeat
  · next last items hitems =>
    have hlast := List.forall_mem_cons.1 (hitems ▸ h.items)
    split_ifs at hrepeat
    split at hrepeat
    all_goals
      cases hrepeat
      exact ⟨List.forall_mem_cons.2 ⟨⟨hmost, hlast.1⟩, hlast.2⟩, h.stack⟩
  · cases hrepeat

end ReaderState

/-- The lower bound of a repetition is not above the upper one. -/
theorem le_of_boundsOf? {verbose : Bool} {text : List Char} {p : (Nat × Option Nat) × List Char}
    (h : boundsOf? verbose text = some p) : ∀ m ∈ p.1.2, p.1.1 ≤ m := by
  rw [boundsOf?, bounds?_eq] at h
  obtain ⟨_, -, h⟩ := Option.bind_eq_some_iff.1 h
  obtain ⟨_, -, h⟩ := Option.bind_eq_some_iff.1 h
  unfold closeBounds? at h
  split_ifs at h with hall
  cases h
  intro m hm
  exact of_decide_eq_true ((Option.all_eq_true _ _).1 hall.2 m hm)

theorem bounded_primitive (p : Primitive) : p.expr.Bounded := by
  cases p <;> trivial

theorem bounded_signItem (c : Char) : (signItem c).Bounded := by
  unfold signItem
  split_ifs <;> trivial

/-- One round of reading. -/
theorem read?_bounded {n : Nat} {s s' : ReaderState} {c : Char} {rest rest' : List Char} (h : s.Bounded)
    (hread : read? n s c rest = some (s', rest')) : s'.Bounded := by
  rw [read?_eq] at hread
  split_ifs at hread
  · exact h.of_openGroup? hread
  · obtain ⟨_, hclose, heq⟩ := Option.map_eq_some_iff.1 hread
    cases heq
    exact h.of_closeGroup? hclose
  · cases hread
    exact h.closeBranch
  · obtain ⟨_, -, heq⟩ := Option.map_eq_some_iff.1 hread
    cases heq
    exact h.add trivial
  · exact h.of_repeatLast? (by simp) hread
  · exact h.of_repeatLast? (by simp) hread
  · exact h.of_repeatLast? (by simp) hread
  · obtain ⟨p, hp, hrepeat⟩ := Option.bind_eq_some_iff.1 hread
    exact h.of_repeatLast? (le_of_boundsOf? hp) hrepeat
  · obtain ⟨p, -, heq⟩ := Option.map_eq_some_iff.1 hread
    cases heq
    exact h.add (bounded_primitive p.1)
  · cases hread
    exact h.add (bounded_signItem c)

/-- All rounds of reading. -/
theorem rounds_bounded {n : Nat} {s : ReaderState} {text : List Char} {e : Expr} (h : s.Bounded)
    (hread : rounds n s text = some e) : e.Bounded := by
  induction n generalizing s text with
  | zero => cases hread
  | succ n ih =>
    rw [rounds_succ] at hread
    cases hskip : skip s.verbose text with
    | nil =>
      rw [hskip] at hread
      exact h.of_closeAll? hread
    | cons c rest =>
      rw [hskip] at hread
      obtain ⟨p, hp, hrest⟩ := Option.bind_eq_some_iff.1 hread
      exact ih (read?_bounded h hp) hrest

theorem bounded_of_map_ofSet {set : Option CharSet} {flags : Flags} {p : Regex × Flags}
    (h : set.map (Regex.ofSet flags) = some p) : p.1.Bounded := by
  obtain ⟨_, -, rfl⟩ := Option.map_eq_some_iff.1 h
  trivial

mutual

/-- The meaning of a pattern. -/
theorem Expr.resolve?_bounded : ∀ (e : Expr) {inForce : Flags} {p : Regex × Flags}, e.Bounded →
    e.resolve? inForce = some p → p.1.Bounded
  | .empty, _, _, _, h => by
    cases h
    trivial
  | .flags _, _, _, _, h => by
    cases h
    trivial
  | .assertion _, _, _, _, h => by
    cases h
    trivial
  | .literal _, _, _, _, h => bounded_of_map_ofSet h
  | .dot, _, _, _, h => bounded_of_map_ofSet h
  | .property _ _, _, _, _, h => bounded_of_map_ofSet h
  | .letter _ _, _, _, _, h => bounded_of_map_ofSet h
  | .bracketed _ _, _, _, _, h => bounded_of_map_ofSet h
  | .repetition _ _ _ inner, _, _, he, h => by
    rw [resolve?] at h
    split at h
    · next hinner =>
      cases h
      exact ⟨he.1, Expr.resolve?_bounded inner he.2 hinner⟩
    · cases h
  | .group captures _ inner, _, _, he, h => by
    rw [resolve?] at h
    split at h
    · next hinner =>
      have hbounded := Expr.resolve?_bounded inner he hinner
      cases h
      cases captures
      · exact hbounded
      · exact hbounded
    · cases h
  | .alternation branches, _, _, he, h => Expr.resolveBranches?_bounded branches he (List.forall_mem_nil _) h
  | .concat items, _, _, he, h => Expr.resolveItems?_bounded items he (List.forall_mem_nil _) h

theorem Expr.resolveItems?_bounded : ∀ (es : List Expr) {inForce : Flags} {found : List Regex} {p : Regex × Flags},
    AllBounded es → (∀ r ∈ found, r.Bounded) → Expr.resolveItems? inForce found es = some p → p.1.Bounded
  | [], _, _, _, _, hfound, h => by
    cases h
    exact Regex.allBounded_iff.2 hfound
  | e :: rest, _, _, _, hes, hfound, h => by
    rw [resolveItems?] at h
    split at h
    · cases h
    · next hitem =>
      have hr := Expr.resolve?_bounded e hes.1 hitem
      exact Expr.resolveItems?_bounded rest hes.2 (List.forall_mem_cons.2 ⟨hr, hfound⟩) h

theorem Expr.resolveBranches?_bounded : ∀ (es : List Expr) {inForce : Flags} {found : List Regex} {p : Regex × Flags},
    AllBounded es → (∀ r ∈ found, r.Bounded) → Expr.resolveBranches? inForce found es = some p → p.1.Bounded
  | [], _, _, _, _, hfound, h => by
    cases h
    exact Regex.allBounded_iff.2 fun r hr => hfound r (List.mem_reverse.1 hr)
  | e :: rest, _, _, _, hes, hfound, h => by
    rw [resolveBranches?] at h
    split at h
    · cases h
    · next hitem =>
      have hr := Expr.resolve?_bounded e hes.1 hitem
      exact Expr.resolveBranches?_bounded rest hes.2 (List.forall_mem_cons.2 ⟨hr, hfound⟩) h

end

theorem Expr.bounded_of_read? {text : List Char} {e : Expr} (h : read? text = some e) : e.Bounded :=
  rounds_bounded ⟨List.forall_mem_nil _, List.forall_mem_nil _⟩ h

end Registrar.Pattern
