import Registrar.Proofs.Registrations
import Mathlib.Data.List.Perm.Basic

/-!
# Which overload registers a class

A candidate is chosen by the first group that has any candidates, and only if it is alone there. So the choice neither
depends on the order in which a class declares its methods, nor on methods that take something else.

* `Rule.Picks` : the candidate that is chosen, group by group;
* `Rule.choose_eq` : the choice as the first group with candidates, and what is alone in it;
* `Rule.choose_eq_ok_iff`, `Rule.choose_perm`, `Rule.choose_insert` : what is chosen, in any order, beside others;
* `Rule.call_settled` : the same of calls, as a whole.
-/

namespace Registrar.Rule

variable {r : Rule} {className : String} {candidates : List RegisterCandidate}

/-! ## Groups -/

/-- The candidate that registers a class: the only one that takes the class itself; if none does, the only one that
takes the interface; if none does either, the only one that takes a superclass; else the only one at all. -/
def Picks (r : Rule) (className : String) (candidates : List RegisterCandidate) (chosen : RegisterCandidate) : Prop :=
  let own := candidates.filter (·.parameter == className)
  let ofInterface := candidates.filter (r.scanInterface == some ·.parameter)
  let ofSuperClass := candidates.filter (r.scanSuperClasses.contains ·.parameter)
  own = [chosen] ∨
    own = [] ∧ ofInterface = [chosen] ∨
    own = [] ∧ ofInterface = [] ∧ ofSuperClass = [chosen] ∨
    own = [] ∧ ofInterface = [] ∧ ofSuperClass = [] ∧ candidates = [chosen]

/-- A parameter puts a candidate into one of the groups. -/
def Prefers (r : Rule) (className parameter : String) : Prop :=
  parameter = className ∨ r.scanInterface = some parameter ∨ parameter ∈ r.scanSuperClasses

theorem prefers_iff {parameter : String} :
    r.Prefers className parameter ↔ ∃ accepts ∈ r.preferences className, accepts parameter = true := by
  have hcontains : r.scanSuperClasses.contains parameter = true ↔ parameter ∈ r.scanSuperClasses := List.contains_iff_mem
  simp [Prefers, preferences, hcontains]

theorem preferred?_eq_none_iff :
    r.preferred? className candidates = none ↔ ∀ candidate ∈ candidates, ¬ r.Prefers className candidate.parameter := by
  simp only [preferred?, List.find?_eq_none, List.mem_map, prefers_iff]
  constructor
  · rintro h candidate hmem ⟨accepts, haccepts, htakes⟩
    have hempty := h _ ⟨accepts, haccepts, rfl⟩
    simp only [Bool.not_eq_true', Bool.not_eq_false, List.isEmpty_iff, List.filter_eq_nil_iff] at hempty
    exact hempty candidate hmem htakes
  · rintro h _ ⟨accepts, haccepts, rfl⟩
    have hnone : candidates.filter (accepts ·.parameter) = [] :=
      List.filter_eq_nil_iff.2 fun candidate hmem htakes => h candidate hmem ⟨accepts, haccepts, htakes⟩
    rw [hnone]
    simp

/-! ## The choice -/

/-- The candidate that is alone, or how many there are instead. -/
def sole (error : Nat → CallError) : List RegisterCandidate → Except CallError RegisterCandidate
  | [only] => .ok only
  | found => .error (error found.length)

/-- Why no candidate is chosen if none is preferred. -/
def unpreferred (className : String) (count : Nat) : CallError :=
  if count = 0 then .noOverload else .noneTakes count className

theorem sole_eq_ok_iff {error : Nat → CallError} {found : List RegisterCandidate} {chosen : RegisterCandidate} :
    sole error found = .ok chosen ↔ found = [chosen] := by
  unfold sole
  split
  · simp
  · next hmany =>
    constructor
    · intro h
      cases h
    · intro h
      exact absurd h (hmany chosen)

theorem sole_perm (error : Nat → CallError) {found found' : List RegisterCandidate} (h : found.Perm found') :
    sole error found = sole error found' := by
  match found, h with
  | [only], h => rw [List.singleton_perm.1 h]
  | [], h => rw [List.nil_perm.1 h]
  | a :: b :: rest, h =>
    have hlength := h.length_eq
    match found', hlength with
    | c :: d :: rest', hlength => exact congrArg (fun n => Except.error (error n)) hlength

theorem choose_eq : r.choose className candidates =
    match r.preferred? className candidates with
    | some found => sole (.ambiguous · className) found
    | none => sole (unpreferred className) candidates := by
  unfold choose
  cases r.preferred? className candidates with
  | some found =>
    match found with
    | [] => rfl
    | [_] => rfl
    | _ :: _ :: _ => rfl
  | none =>
    match candidates with
    | [] => rfl
    | [_] => rfl
    | _ :: _ :: _ => rfl

theorem choose_eq_ok_iff {chosen : RegisterCandidate} :
    r.choose className candidates = .ok chosen ↔ r.Picks className candidates chosen := by
  rw [choose_eq]
  simp only [preferred?, preferences, List.map_cons, List.map_nil, List.find?_cons, List.find?_nil, Picks]
  -- Group by group: an empty one is passed over, any other one settles the choice.
  cases candidates.filter (·.parameter == className) with
  | cons a own => simp [sole_eq_ok_iff]
  | nil =>
    cases candidates.filter (r.scanInterface == some ·.parameter) with
    | cons a ofInterface => simp [sole_eq_ok_iff]
    | nil =>
      cases candidates.filter (r.scanSuperClasses.contains ·.parameter) with
      | cons a ofSuperClass => simp [sole_eq_ok_iff]
      | nil => simp [sole_eq_ok_iff]

/-! ## Other orders and other candidates -/

theorem find?_isEmpty_perm {groups groups' : List (List RegisterCandidate)} (h : List.Forall₂ List.Perm groups groups') :
    Option.Rel List.Perm (groups.find? (!·.isEmpty)) (groups'.find? (!·.isEmpty)) := by
  induction h with
  | nil => exact .none
  | @cons group group' _ _ hgroup _ ih =>
    simp only [List.find?_cons, hgroup.isEmpty_eq]
    split
    · exact .some hgroup
    · exact ih

theorem preferred?_perm {candidates' : List RegisterCandidate} (h : candidates.Perm candidates') :
    Option.Rel List.Perm (r.preferred? className candidates) (r.preferred? className candidates') := by
  apply find?_isEmpty_perm
  rw [List.forall₂_map_left_iff, List.forall₂_map_right_iff, List.forall₂_same]
  intro accepts _
  exact h.filter _

/-- The order of the candidates makes no difference, not even to why none is chosen. -/
theorem choose_perm {candidates' : List RegisterCandidate} (h : candidates.Perm candidates') :
    r.choose className candidates = r.choose className candidates' := by
  have hpreferred : Option.Rel List.Perm (r.preferred? className candidates) (r.preferred? className candidates') :=
    preferred?_perm h
  rw [choose_eq, choose_eq]
  revert hpreferred
  generalize r.preferred? className candidates = found
  generalize r.preferred? className candidates' = found'
  rintro (⟨hfound⟩ | -)
  · exact sole_perm _ hfound
  · exact sole_perm _ h

theorem preferred?_insert {front back : List RegisterCandidate} {added : RegisterCandidate}
    (hadded : ¬ r.Prefers className added.parameter) :
    r.preferred? className (front ++ added :: back) = r.preferred? className (front ++ back) := by
  have hgroups : (r.preferences className).map (fun accepts => (front ++ added :: back).filter (accepts ·.parameter)) =
      (r.preferences className).map fun accepts => (front ++ back).filter (accepts ·.parameter) := by
    apply List.map_congr_left
    intro accepts haccepts
    have hrefused : ¬ accepts added.parameter = true := fun htakes => hadded (prefers_iff.2 ⟨accepts, haccepts, htakes⟩)
    simp [List.filter_append, hrefused]
  rw [preferred?, preferred?, hgroups]

/-- Where a group decides, candidates that are in no group make no difference. -/
theorem choose_insert {front back : List RegisterCandidate} {added : RegisterCandidate}
    (hgroup : ∃ candidate ∈ front ++ back, r.Prefers className candidate.parameter)
    (hadded : ¬ r.Prefers className added.parameter) :
    r.choose className (front ++ added :: back) = r.choose className (front ++ back) := by
  obtain ⟨candidate, hmem, hprefers⟩ := hgroup
  rw [choose_eq, choose_eq, preferred?_insert hadded]
  cases hfound : r.preferred? className (front ++ back) with
  | none => exact absurd hprefers (preferred?_eq_none_iff.1 hfound candidate hmem)
  | some found => rfl

/-! ## Calls -/

/-- **The overload that is called.** A class is registered just if a candidate is picked for it, by that candidate. The
order of the candidates bears neither on the call nor on the error, and where a group has candidates, one that belongs
to no group bears on nothing. -/
theorem call_settled (r : Rule) (className : String) (candidates : List RegisterCandidate) :
    (∀ call, r.call candidates className = .ok call ↔ ∃ chosen, r.Picks className candidates chosen ∧
      call = ⟨className, chosen.descriptor, chosen.isStatic, chosen.returnSlots⟩) ∧
    (∀ candidates', candidates.Perm candidates' → r.call candidates' className = r.call candidates className) ∧
    ∀ front back added, candidates = front ++ back →
      (∃ candidate ∈ candidates, r.Prefers className candidate.parameter) → ¬ r.Prefers className added.parameter →
        r.call (front ++ added :: back) className = r.call candidates className := by
  refine ⟨fun call => ?_, fun candidates' h => ?_, ?_⟩
  · rw [call_eq_ok_iff]
    simp only [choose_eq_ok_iff, RegisterCandidate.call]
  · rw [Rule.call, Rule.call, choose_perm h]
  · rintro front back added rfl hgroup hadded
    rw [Rule.call, Rule.call, choose_insert hgroup hadded]

/-- A rule for the classes with an interface, whose name is also among the superclasses. -/
def overlappingRule : Rule where
  config := .initial
  scanInterface := some "G"
  scanSuperClasses := .ofList ["B", "G"]
  included := []
  excluded := []
  targetClass := "A"
  targetMethod := ClassFile.staticInitializer
  registerMethod := "r"

/-- A static method that takes an object of a class. -/
def takingOne (parameter : String) : RegisterCandidate := ⟨"(L" ++ parameter ++ ";)V", parameter, true, 0⟩

theorem call_settled_overlappingRule :
    overlappingRule.call [takingOne "B", takingOne "G"] "C" = .ok ⟨"C", "(LG;)V", true, 0⟩ ∧
      overlappingRule.call [takingOne "G", takingOne "B"] "C" =
        overlappingRule.call [takingOne "B", takingOne "G"] "C" ∧
      overlappingRule.call [takingOne "B", takingOne "X", takingOne "G"] "C" =
        overlappingRule.call [takingOne "B", takingOne "G"] "C" := by
  obtain ⟨hcall, hperm, hinsert⟩ := call_settled overlappingRule "C" [takingOne "B", takingOne "G"]
  have hpicks : overlappingRule.Picks "C" [takingOne "B", takingOne "G"] (takingOne "G") :=
    .inr (.inl ⟨by decide, by decide⟩)
  have hother : ¬ overlappingRule.Prefers "C" (takingOne "X").parameter := by
    rintro (h | h | h)
    · exact absurd h (by decide)
    · exact absurd h (by decide)
    · exact absurd (NameSet.mem_ofList.1 h) (by decide)
  exact ⟨(hcall _).2 ⟨_, hpicks, rfl⟩, hperm _ (List.Perm.swap _ _ _),
    hinsert [takingOne "B"] [takingOne "G"] (takingOne "X") rfl ⟨takingOne "G", by simp, .inr (.inl rfl)⟩ hother⟩

end Registrar.Rule
