import Registrar.Proofs.Enclosing
import Registrar.Proofs.Repetitions
import Registrar.Proofs.Results
import Registrar.Proofs.Sweeps
import Registrar.Rule.Basic

/-!
# Patterns and whole names

A pattern that closes no group but its own is read between its anchors as it is read alone, and what it then accepts
are the names that it matches from the first to the last character. One that closes the group around it is no pattern
alone, but may be one between the anchors, and then it may match a part of a name.

* `Regex.accepts_whole_iff` : an expression between anchors accepts the texts that it matches as a whole;
* `NamePattern.compile?_eq_some_iff` : the patterns that are accepted, and their automata;
* `NamePattern.straddles` : a pattern is accepted although it closes the group around it;
* `NamePattern.isSome_compile?_iff` : any other one is accepted just if it is valid alone;
* `NamePattern.accepts_iff` : what an accepted pattern accepts;
* `Rule.speaks_of_whole_names` : both for a rule; `Rule.admits_part_of_name` : a rule whose pattern closes the group.
-/

namespace Registrar

namespace Pattern

/-! ## Expressions between anchors -/

namespace Regex

/-- An expression between the conditions that the text starts and that it stops. -/
def whole (r : Regex) : Regex := .concat [.look .stop, r, .look .start]

theorem Bounded.whole {r : Regex} (h : r.Bounded) : r.whole.Bounded := ⟨trivial, h, trivial, trivial⟩

theorem matches_whole_iff {r : Regex} {p q : Place} :
    r.whole.Matches p q ↔ p.before = [] ∧ r.Matches p q ∧ q.after = [] := by
  have hstart : p.Meets .start ↔ p.before = [] := by simp [Place.Meets, Look.holds]
  have hstop : q.Meets .stop ↔ q.after = [] := by simp [Place.Meets, Look.holds]
  rw [← hstart, ← hstop]
  constructor
  · rintro ⟨last, ⟨mid, ⟨first, hfirst, hmeets, rfl⟩, hr⟩, hmeets', rfl⟩
    obtain rfl : p = first := hfirst
    exact ⟨hmeets, hr, hmeets'⟩
  · rintro ⟨hmeets, hr, hmeets'⟩
    exact ⟨q, ⟨p, ⟨p, rfl, hmeets, rfl⟩, hr⟩, hmeets', rfl⟩

/-- The end of a text is the only position of it with nothing behind. -/
theorem eq_stop_of_matches {r : Regex} {text : List Char} {q : Place} (h : r.Matches (.start text) q)
    (hafter : q.after = []) : q = .stop text := by
  have htext := Matches.text_eq r h
  obtain ⟨before, after⟩ := q
  obtain rfl : after = [] := hafter
  rw [Place.text, Place.text, List.append_nil] at htext
  rw [Place.stop, ← List.reverse_reverse before, htext]
  rfl

theorem accepts_whole_iff {r : Regex} (hr : r.Bounded) (text : List Char) :
    r.whole.automaton.accepts text = true ↔ r.MatchesWhole text := by
  simp only [accepts_automaton_iff hr.whole, matches_whole_iff, List.reverse_eq_nil_iff]
  constructor
  · rintro ⟨_, rest, q, rfl, rfl, hmatches, hafter⟩
    rwa [List.nil_append, MatchesWhole, ← eq_stop_of_matches hmatches hafter]
  · intro hmatches
    exact ⟨[], text, .stop text, rfl, rfl, hmatches, rfl⟩

end Regex

namespace Expr

theorem regex?_anchored (e : Expr) : e.anchored.regex? = e.regex?.map Regex.whole := by
  have hflags : Flags.initial.apply [] = Flags.initial := rfl
  simp only [regex?, anchored, resolve?, resolveItems?, hflags]
  cases e.resolve? Flags.initial with
  | none => rfl
  | some p => rfl

/-- Whether a pattern keeps the limits: that of its depth and that of its automata. -/
def isWithinLimits (e : Expr) : Bool := e.depth ≤ maxNesting && e.regex?.all (·.normal.isAllowed)

end Expr

/-- A text is valid if it can be read, keeps the limits and has a meaning. -/
theorem Regex.parse?_eq_some_iff {text : List Char} {r : Regex} :
    Regex.parse? text = some r ↔ ∃ e, Expr.read? text = some e ∧ e.isWithinLimits = true ∧ e.regex? = some r := by
  simp only [Regex.parse?, Expr.parse?_eq, Expr.isWithinLimits, Option.filter_eq_some_iff, Option.bind_eq_some_iff,
    Bool.and_eq_true, decide_eq_true_eq]
  constructor
  · rintro ⟨⟨e, ⟨hread, hdepth⟩, hr⟩, hallowed⟩
    exact ⟨e, hread, ⟨hdepth, by rwa [hr]⟩, hr⟩
  · rintro ⟨e, hread, ⟨hdepth, hallowed⟩, hr⟩
    rw [hr] at hallowed
    exact ⟨⟨e, ⟨hread, hdepth⟩, hr⟩, hallowed⟩

end Pattern

open Pattern (Expr Regex)

/-! ## Patterns -/

namespace NamePattern

/-- A pattern, read alone, matches a name from its first to its last character. -/
def MatchesWhole (pattern name : String) : Prop :=
  ∃ e r, Expr.read? pattern.toList = some e ∧ e.regex? = some r ∧ r.MatchesWhole name.toList

/-- Whether a pattern has room for its anchors: no comment in it runs into the one behind it, and with both it keeps
the limits just if it does without. -/
def hasRoom (pattern : String) : Bool :=
  !Expr.endsInComment pattern.toList &&
    (Expr.read? pattern.toList).all fun e => e.anchored.isWithinLimits == e.isWithinLimits

/-- Whether a pattern is accepted although it closes the group around it. -/
def straddles (pattern : String) : Bool := Expr.closesOutside pattern.toList && (compile? pattern).isSome

variable {pattern : String}

/-- A pattern that closes the group around it is not valid alone. -/
theorem parse?_eq_none_of_closesOutside (h : Expr.closesOutside pattern.toList = true) :
    Regex.parse? pattern.toList = none := by
  refine Option.eq_none_iff_forall_ne_some.2 fun r hr => ?_
  obtain ⟨e, hread, -⟩ := Regex.parse?_eq_some_iff.1 hr
  rw [Expr.closesOutside_of_read? hread] at h
  cases h

theorem compile?_eq_some_iff (hclose : Expr.closesOutside pattern.toList = false) {p : NamePattern} :
    compile? pattern = some p ↔ Expr.endsInComment pattern.toList = false ∧
      ∃ e r, Expr.read? pattern.toList = some e ∧ e.anchored.isWithinLimits = true ∧ e.regex? = some r ∧
        p = ⟨r.whole.automaton⟩ := by
  simp only [compile?, Option.map_eq_some_iff, Regex.parse?_eq_some_iff, Expr.read?_anchor hclose]
  cases Expr.endsInComment pattern.toList with
  | true => simp
  | false =>
    simp only [Bool.false_eq_true, if_false, Option.map_eq_some_iff, true_and]
    constructor
    · rintro ⟨_, ⟨_, ⟨e, hread, rfl⟩, hlimits, hregex⟩, rfl⟩
      rw [Expr.regex?_anchored] at hregex
      obtain ⟨r, hr, rfl⟩ := Option.map_eq_some_iff.1 hregex
      exact ⟨e, r, hread, hlimits, hr, rfl⟩
    · rintro ⟨e, r, hread, hlimits, hr, rfl⟩
      exact ⟨r.whole, ⟨e.anchored, ⟨e, hread, rfl⟩, hlimits, by rw [Expr.regex?_anchored, hr]; rfl⟩, rfl⟩

/-- A pattern with room for its anchors is accepted just if it is valid alone, unless it straddles them. -/
theorem isSome_compile?_iff (hstraddles : straddles pattern = false) (hroom : hasRoom pattern = true) :
    (compile? pattern).isSome = true ↔ (Regex.parse? pattern.toList).isSome = true := by
  cases hclose : Expr.closesOutside pattern.toList with
  | true =>
    rw [straddles, hclose, Bool.true_and] at hstraddles
    rw [hstraddles, parse?_eq_none_of_closesOutside hclose, Option.isSome_none]
  | false =>
    obtain ⟨hcomment, hlimits⟩ := Bool.and_eq_true_iff.1 hroom
    rw [Bool.not_eq_true'] at hcomment
    have hsame : ∀ e, Expr.read? pattern.toList = some e → e.anchored.isWithinLimits = e.isWithinLimits :=
      fun e he => eq_of_beq ((Option.all_eq_true _ _).1 hlimits e he)
    simp only [Option.isSome_iff_exists, compile?_eq_some_iff hclose, Regex.parse?_eq_some_iff]
    constructor
    · rintro ⟨_, -, e, r, hread, hanchored, hr, -⟩
      exact ⟨r, e, hread, hsame e hread ▸ hanchored, hr⟩
    · rintro ⟨r, e, hread, halone, hr⟩
      exact ⟨_, hcomment, e, r, hread, (hsame e hread).trans halone, hr, rfl⟩

-- The comment takes the closing parenthesis behind it along.
example : (Regex.parse? "(?x)a#c".toList).isSome = true ∧ compile? "(?x)a#c" = none := by decide +kernel

/-- What is accepted are the names that the pattern matches as a whole. -/
theorem accepts_iff (hstraddles : straddles pattern = false) {p : NamePattern} (h : compile? pattern = some p)
    (name : String) : p.accepts name = true ↔ MatchesWhole pattern name := by
  have hclose : Expr.closesOutside pattern.toList = false := by
    rwa [straddles, h, Option.isSome_some, Bool.and_true] at hstraddles
  obtain ⟨-, e, r, hread, -, hr, rfl⟩ := (compile?_eq_some_iff hclose).1 h
  obtain ⟨q, hq, hqr⟩ := Option.map_eq_some_iff.1 hr
  have hbounded : r.Bounded := hqr ▸ Expr.resolve?_bounded e (Expr.bounded_of_read? hread) hq
  rw [accepts, Regex.accepts_whole_iff hbounded]
  constructor
  · intro hwhole
    exact ⟨e, r, hread, hr, hwhole⟩
  · rintro ⟨e', r', hread', hr', hwhole⟩
    obtain rfl := Option.some.inj (hread.symm.trans hread')
    obtain rfl := Option.some.inj (hr.symm.trans hr')
    exact hwhole

end NamePattern

/-! ## Rules -/

namespace Rule

/-- The names that a rule must give are given. -/
def HasNames (c : RuleConfig) : Prop := internalName c.targetClass ≠ "" ∧ trimmed c.registerMethod ≠ ""

instance (c : RuleConfig) : Decidable (HasNames c) := inferInstanceAs (Decidable (_ ∧ _))

theorem compile_eq_ok_iff {list : PatternList} {patterns : List String} {ps : List NamePattern} :
    compile list patterns = .ok ps ↔
      List.Forall₂ (fun pattern p => NamePattern.compile? pattern = some p) patterns ps := by
  induction patterns generalizing ps with
  | nil =>
    rw [List.forall₂_nil_left_iff, compile, Except.ok.injEq]
    exact eq_comm
  | cons pattern rest ih =>
    rw [compile, List.forall₂_cons_left_iff]
    cases hfirst : NamePattern.compile? pattern with
    | none => simp
    | some first =>
      simp only [Except.map_eq_ok_iff, ih, Option.some.injEq]
      constructor
      · rintro ⟨others, hothers, rfl⟩
        exact ⟨first, others, rfl, hothers, rfl⟩
      · rintro ⟨_, others, rfl, hothers, rfl⟩
        exact ⟨others, hothers, rfl⟩

theorem exists_compile_iff (list : PatternList) (patterns : List String) :
    (∃ ps, compile list patterns = .ok ps) ↔
      ∀ pattern ∈ patterns, (NamePattern.compile? pattern).isSome = true := by
  simp only [compile_eq_ok_iff, Option.isSome_iff_exists]
  constructor
  · rintro ⟨ps, hps⟩ pattern hpattern
    obtain ⟨i, hi, rfl⟩ := List.mem_iff_getElem.1 hpattern
    exact ⟨_, hps.get hi (hps.length_eq ▸ hi)⟩
  · intro h
    induction patterns with
    | nil => exact ⟨[], .nil⟩
    | cons pattern rest ih =>
      obtain ⟨⟨p, hp⟩, hrest⟩ := List.forall_mem_cons.1 h
      obtain ⟨ps, hps⟩ := ih hrest
      exact ⟨p :: ps, .cons hp hps⟩

/-- A rule with its patterns compiled. -/
def ofPatterns (c : RuleConfig) (included excluded : List NamePattern) : Rule where
  config := c
  scanInterface := some (internalName c.scanInterface) |>.filter fun name => !name.isEmpty
  scanSuperClasses := NameSet.ofList ((c.scanSuperClasses.map internalName).filter fun name => !name.isEmpty)
  included := included
  excluded := excluded
  targetClass := internalName c.targetClass
  targetMethod := targetMethodName c.targetMethod
  registerMethod := trimmed c.registerMethod

theorem ofConfig_eq_ok_iff {c : RuleConfig} {r : Rule} :
    ofConfig c = .ok r ↔ HasNames c ∧ ∃ included excluded, compile .included c.included = .ok included ∧
      compile .excluded c.excluded = .ok excluded ∧ ofPatterns c included excluded = r := by
  unfold ofConfig
  dsimp only
  split
  · next htarget =>
    exact iff_of_false (fun h => nomatch h) fun h => h.1.1 (String.isEmpty_iff.1 htarget)
  next htarget =>
  split
  · next hmethod =>
    exact iff_of_false (fun h => nomatch h) fun h => h.1.2 (String.isEmpty_iff.1 hmethod)
  next hmethod =>
  have hnames : HasNames c := ⟨mt String.isEmpty_iff.2 htarget, mt String.isEmpty_iff.2 hmethod⟩
  rw [and_iff_right hnames]
  constructor
  · intro h
    obtain ⟨included, hincluded, h⟩ := Except.bind_eq_ok_iff.1 h
    obtain ⟨excluded, hexcluded, h⟩ := Except.bind_eq_ok_iff.1 h
    exact ⟨included, excluded, hincluded, hexcluded, Except.ok.inj h⟩
  · rintro ⟨included, excluded, hincluded, hexcluded, rfl⟩
    exact Except.bind_eq_ok_iff.2 ⟨included, hincluded, Except.bind_eq_ok_iff.2 ⟨excluded, hexcluded, rfl⟩⟩

theorem exists_ofConfig_iff {c : RuleConfig} :
    (∃ r, ofConfig c = .ok r) ↔
      HasNames c ∧ ∀ pattern ∈ c.included ++ c.excluded, (NamePattern.compile? pattern).isSome = true := by
  rw [List.forall_mem_append, ← exists_compile_iff .included, ← exists_compile_iff .excluded]
  simp only [ofConfig_eq_ok_iff]
  constructor
  · rintro ⟨r, hnames, included, excluded, hincluded, hexcluded, -⟩
    exact ⟨hnames, ⟨included, hincluded⟩, excluded, hexcluded⟩
  · rintro ⟨hnames, ⟨included, hincluded⟩, excluded, hexcluded⟩
    exact ⟨_, hnames, included, excluded, hincluded, hexcluded, rfl⟩

/-- The patterns of a rule, as they are written, admit a name: one of those to match does so as a whole, if there are
any, and none of the others does. -/
def AdmitsWhole (c : RuleConfig) (name : String) : Prop :=
  (c.included = [] ∨ ∃ pattern ∈ c.included, NamePattern.MatchesWhole pattern name) ∧
    ∀ pattern ∈ c.excluded, ¬ NamePattern.MatchesWhole pattern name

/-- Some compiled patterns accept the names that these patterns match as a whole. -/
def SpeakWhole (patterns : List String) (ps : List NamePattern) : Prop :=
  List.Forall₂ (fun pattern p => ∀ name, p.accepts name = true ↔ NamePattern.MatchesWhole pattern name) patterns ps

theorem speakWhole_of_compile {list : PatternList} {patterns : List String} {ps : List NamePattern}
    (hstraddles : ∀ pattern ∈ patterns, NamePattern.straddles pattern = false) (h : compile list patterns = .ok ps) :
    SpeakWhole patterns ps := by
  rw [compile_eq_ok_iff] at h
  induction h with
  | nil => exact .nil
  | cons hfirst _ ih =>
    obtain ⟨hpattern, hrest⟩ := List.forall_mem_cons.1 hstraddles
    exact .cons (NamePattern.accepts_iff hpattern hfirst) (ih hrest)

theorem SpeakWhole.any_accepts_iff {patterns : List String} {ps : List NamePattern} (h : SpeakWhole patterns ps)
    (name : String) :
    ps.any (·.accepts name) = true ↔ ∃ pattern ∈ patterns, NamePattern.MatchesWhole pattern name := by
  induction h with
  | nil => simp
  | cons hfirst _ ih => rw [List.any_cons, Bool.or_eq_true, hfirst, ih, List.exists_mem_cons_iff]

theorem admits_iff_admitsWhole {c : RuleConfig} {r : Rule} (hincluded : SpeakWhole c.included r.included)
    (hexcluded : SpeakWhole c.excluded r.excluded) (name : String) : r.admits name = true ↔ AdmitsWhole c name := by
  have hempty : r.included.isEmpty = true ↔ c.included = [] := by
    rw [List.isEmpty_iff, ← List.length_eq_zero_iff, ← List.length_eq_zero_iff, hincluded.length_eq]
  rw [admits, AdmitsWhole, Bool.and_eq_true, Bool.or_eq_true, hempty, hincluded.any_accepts_iff, Bool.not_eq_true',
    ← Bool.not_eq_true, hexcluded.any_accepts_iff]
  simp

/-- If no pattern is accepted that closes the group around it, the patterns of a rule speak of whole names: the rule is
accepted just if each of them is valid alone, as long as they have room for their anchors, and each of them accepts the
names that it matches from the first to the last character. -/
theorem speaks_of_whole_names (c : RuleConfig)
    (hstraddles : ∀ pattern ∈ c.included ++ c.excluded, NamePattern.straddles pattern = false) :
    ((∀ pattern ∈ c.included ++ c.excluded, NamePattern.hasRoom pattern = true) →
      ((∃ r, ofConfig c = .ok r) ↔
        HasNames c ∧ ∀ pattern ∈ c.included ++ c.excluded, (Regex.parse? pattern.toList).isSome = true)) ∧
    ∀ r, ofConfig c = .ok r → SpeakWhole c.included r.included ∧ SpeakWhole c.excluded r.excluded ∧
      ∀ m : Metadata, r.admits (dottedName m.name) = true ↔ AdmitsWhole c (dottedName m.name) := by
  constructor
  · intro hroom
    rw [exists_ofConfig_iff]
    refine and_congr_right fun _ => forall₂_congr fun pattern hpattern => ?_
    exact NamePattern.isSome_compile?_iff (hstraddles pattern hpattern) (hroom pattern hpattern)
  · intro r hr
    obtain ⟨-, included, excluded, hincluded, hexcluded, rfl⟩ := ofConfig_eq_ok_iff.1 hr
    obtain ⟨hfirst, hlast⟩ := List.forall_mem_append.1 hstraddles
    have hspeakin : SpeakWhole c.included included := speakWhole_of_compile hfirst hincluded
    have hspeakex : SpeakWhole c.excluded excluded := speakWhole_of_compile hlast hexcluded
    exact ⟨hspeakin, hspeakex, fun m => admits_iff_admitsWhole hspeakin hspeakex _⟩

/-- A rule for the classes of a package whose names are words, except for a base class and tests. -/
def packageRule : RuleConfig :=
  ⟨"Plugin", [], ["com\\.example\\.[A-Z][a-z]*"], ["com\\.example\\.(Base|Test[a-z]*)"], "Plugins", "", "add"⟩

theorem speaks_of_whole_names_packageRule :
    ∃ r, ofConfig packageRule = .ok r ∧ SpeakWhole packageRule.included r.included ∧
      SpeakWhole packageRule.excluded r.excluded ∧
      ∀ m : Metadata, r.admits (dottedName m.name) = true ↔ AdmitsWhole packageRule (dottedName m.name) := by
  have hspeaks := speaks_of_whole_names packageRule (by decide +kernel)
  have hnames : HasNames packageRule := by decide +kernel
  obtain ⟨r, hr⟩ := (hspeaks.1 (by decide +kernel)).2 ⟨hnames, by decide +kernel⟩
  exact ⟨r, hr, hspeaks.2 r hr⟩

/-- A rule whose pattern closes the group around it, and opens another one. -/
def straddlingRule : RuleConfig := ⟨"Plugin", [], ["a)|(?:b"], [], "Plugins", "", "add"⟩

/-- A pattern that is not valid alone is accepted, and names of which it matches a part are admitted. -/
theorem admits_part_of_name :
    ∃ r, ofConfig straddlingRule = .ok r ∧ r.admits "ax" = true ∧ ¬ AdmitsWhole straddlingRule "ax" ∧
      ¬ ∀ pattern ∈ straddlingRule.included, (Regex.parse? pattern.toList).isSome = true := by
  have hadmits : (ofConfig straddlingRule).toOption.map (·.admits "ax") = some true := by decide +kernel
  have hread : (Expr.read? "a)|(?:b".toList).isSome = false := by decide +kernel
  cases hr : ofConfig straddlingRule with
  | error => simp [hr, Except.toOption] at hadmits
  | ok r =>
    refine ⟨r, rfl, by simpa [hr, Except.toOption] using hadmits, ?_, by decide +kernel⟩
    rintro ⟨hempty | ⟨pattern, hpattern, e, _, he, -⟩, -⟩
    · cases hempty
    · obtain rfl := List.mem_singleton.1 hpattern
      rw [he] at hread
      cases hread

end Rule

end Registrar
