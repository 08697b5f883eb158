import Registrar.Proofs.Groups
import Registrar.Proofs.Methods
import Registrar.Proofs.Schedules

/-!
# Classes that register do not disturb each other

* `injectUnder` : all classes are changed, with the groups taking turns by a schedule. `injectAll` is the schedule in
  which one group follows the other (`injectUnder_sequential`);
* `injectOnly` : what the rules for one class do without all other rules;
* `injectUnder_isolated` : under any schedule, the rules for a class have the outcomes that they have alone, and its
  copy holds the same bytes;
* `not_forall_read_injectUnder` : not so for the classes `a//b` and `a/b`, whose copies have the same path.
-/

namespace Registrar

/-! ## Schedules of all classes -/

/-- Changes all classes that register, with the groups taking turns by a schedule. -/
def injectUnder (schedule : List Nat) (inputs : Inputs) (rules : List Rule) (matched : List NameSet) (work : String)
    (fs : FileSystem) : List InjectionOutcome × FileSystem :=
  let groups := TargetGroup.all rules matched
  let p := Pool.run groups inputs work schedule (.start fs)
  let outcomes := (List.range groups.length).flatMap fun i => (p.progress i).outcomes
  ((List.range rules.length).map fun index => (outcomes.lookup index).getD .noMatches, p.fs)

/-- One class after the other is one of the schedules. -/
theorem injectUnder_sequential (inputs : Inputs) (rules : List Rule) (matched : List NameSet) (work : String)
    (fs : FileSystem) :
    injectUnder (Pool.sequential 0 (TargetGroup.all rules matched).length) inputs rules matched work fs =
      injectAll inputs rules matched work fs := by
  obtain ⟨hfs, -, houtcomes⟩ := Pool.run_sequential (List.nil_append (TargetGroup.all rules matched)).symm
    (fun i _ => show (Pool.start fs).progress i = .waiting from rfl)
  rw [List.length_nil, ← List.range_eq_range'] at houtcomes
  refine Prod.ext ?_ hfs
  unfold injectUnder injectAll
  dsimp only
  rw [houtcomes]
  rfl

/-! ## Groups of rules -/

/-- The rules that register a class, with their positions. -/
def activeRules (rules : List Rule) (matched : List NameSet) : List GroupRule :=
  ((rules.zip matched).zipIdx.map fun ((rule, names), index) => ⟨index, rule, names⟩).filter fun g => !g.matched.isEmpty

/-- The rules for one class. -/
def groupOf (rules : List Rule) (matched : List NameSet) (target : String) : TargetGroup :=
  ⟨target, (activeRules rules matched).filter (·.rule.targetClass == target)⟩

/-- The classes for which there are rules. -/
def targets (rules : List Rule) (matched : List NameSet) : List String :=
  (NameSet.ofList ((activeRules rules matched).map (·.rule.targetClass))).toList

theorem all_eq (rules : List Rule) (matched : List NameSet) :
    TargetGroup.all rules matched = (targets rules matched).map (groupOf rules matched) := rfl

theorem nodup_targets (rules : List Rule) (matched : List NameSet) : (targets rules matched).Nodup :=
  (NameSet.ofList _).ascending.imp fun hlt heq => absurd (heq ▸ hlt) (String.lt_irrefl _)

theorem mem_targets {rules : List Rule} {matched : List NameSet} {target : String} :
    target ∈ targets rules matched ↔ ∃ r ∈ activeRules rules matched, r.rule.targetClass = target := by
  have hmem : target ∈ targets rules matched ↔ target ∈ (activeRules rules matched).map (·.rule.targetClass) :=
    NameSet.mem_ofList
  rw [hmem, List.mem_map]

/-- A table that was put together of parts says of a key what the part says that may hold it. -/
theorem lookup_flatMap {α β γ : Type} [BEq β] {f : α → List (β × γ)} {l : List α} {a : α} {key : β}
    (hother : ∀ b ∈ l, b ≠ a → (f b).lookup key = none) (hmissing : a ∉ l → (f a).lookup key = none) :
    (l.flatMap f).lookup key = (f a).lookup key := by
  induction l with
  | nil => exact (hmissing List.not_mem_nil).symm
  | cons b l ih =>
    rw [List.forall_mem_cons] at hother
    rw [List.flatMap_cons, List.lookup_append]
    by_cases hb : b = a
    · subst hb
      cases hkey : (f b).lookup key with
      | some c => rfl
      | none =>
        rw [Option.none_or, ← hkey]
        exact ih hother.2 fun _ => hkey
    · rw [hother.1 hb, Option.none_or]
      apply ih hother.2
      intro hnot
      exact hmissing fun hmem => (List.mem_cons.1 hmem).elim (fun h => hb h.symm) hnot

theorem lookup_eq_none {β γ : Type} [BEq β] [LawfulBEq β] {table : List (β × γ)} {key : β} (h : key ∉ table.map (·.1)) :
    table.lookup key = none := by
  rw [List.lookup_eq_none_iff]
  intro entry hentry
  rw [bne_iff_ne]
  rintro rfl
  exact h (List.mem_map_of_mem hentry)

/-- Outcomes for the rules that register a class, in order, and none for the others. -/
def fill : List (Rule × NameSet) → List InjectionOutcome → List InjectionOutcome
  | [], _ => []
  | r :: rest, outcomes =>
    if r.2.isEmpty then .noMatches :: fill rest outcomes
    else outcomes.headD .noMatches :: fill rest outcomes.tail

theorem mem_of_mem_fill {rules : List (Rule × NameSet)} {outcomes : List InjectionOutcome} {outcome : InjectionOutcome}
    (h : outcome ∈ fill rules outcomes) : outcome = .noMatches ∨ outcome ∈ outcomes := by
  induction rules generalizing outcomes with
  | nil => cases h
  | cons r rules ih =>
    rw [fill] at h
    split at h
    · rcases List.mem_cons.1 h with rfl | h
      · exact .inl rfl
      · exact ih h
    · cases outcomes with
      | nil =>
        rcases List.mem_cons.1 h with rfl | h
        · exact .inl rfl
        · exact ih h
      | cons first others =>
        rcases List.mem_cons.1 h with rfl | h
        · exact .inr List.mem_cons_self
        · exact (ih h).imp id (List.mem_cons_of_mem _)

/-- The rules that register a class, of some rules with their positions. -/
def activeOf (rules : List ((Rule × NameSet) × Nat)) : List GroupRule :=
  (rules.map fun ((rule, names), index) => ⟨index, rule, names⟩).filter fun g => !g.matched.isEmpty

theorem mem_of_mem_activeOf {rules : List ((Rule × NameSet) × Nat)} {r : GroupRule} (h : r ∈ activeOf rules) :
    ((r.rule, r.matched), r.index) ∈ rules := by
  obtain ⟨entry, hentry, rfl⟩ := List.mem_map.1 (List.mem_filter.1 h).1
  exact hentry

/-- The outcomes of rules with different positions, read off a table by position. -/
theorem map_lookup_eq_fill {rules : List ((Rule × NameSet) × Nat)} (hnodup : (rules.map (·.2)).Nodup)
    {table : List (Nat × InjectionOutcome)} (htable : table.map (·.1) = (activeOf rules).map (·.index)) :
    (rules.map fun r => (table.lookup r.2).getD .noMatches) = fill (rules.map (·.1)) (table.map (·.2)) := by
  induction rules generalizing table with
  | nil => rfl
  | cons r rules ih =>
    obtain ⟨⟨rule, names⟩, index⟩ := r
    rw [List.map_cons, List.nodup_cons] at hnodup
    by_cases hempty : names.isEmpty = true
    · have hactive : activeOf (((rule, names), index) :: rules) = activeOf rules := by
        rw [activeOf, List.map_cons, List.filter_cons_of_neg (by simp [hempty])]
        rfl
      rw [hactive] at htable
      have hmissing : index ∉ table.map (·.1) := by
        rw [htable]
        intro hmem
        obtain ⟨g, hg, rfl⟩ := List.mem_map.1 hmem
        exact hnodup.1 (List.mem_map.2 ⟨_, mem_of_mem_activeOf hg, rfl⟩)
      rw [List.map_cons, List.map_cons, fill, if_pos hempty, lookup_eq_none hmissing, ih hnodup.2 htable]
      rfl
    · have hactive : activeOf (((rule, names), index) :: rules) = ⟨index, rule, names⟩ :: activeOf rules := by
        rw [activeOf, List.map_cons, List.filter_cons_of_pos (by simp [hempty])]
        rfl
      rw [hactive, List.map_cons] at htable
      obtain ⟨⟨key, outcome⟩, rest, rfl, hkey, hrest⟩ := List.map_eq_cons_iff.1 htable
      obtain rfl : key = index := hkey
      have hbehind : (rules.map fun r => ((((key, outcome) :: rest).lookup r.2).getD .noMatches)) =
          rules.map fun r => (rest.lookup r.2).getD .noMatches := by
        apply List.map_congr_left
        intro r hr
        have hne : r.2 ≠ key := by
          rintro rfl
          exact hnodup.1 (List.mem_map.2 ⟨_, hr, rfl⟩)
        rw [List.lookup_cons, beq_eq_false_iff_ne.2 hne]
      rw [List.map_cons, List.map_cons, List.map_cons, fill, if_neg hempty, hbehind, ih hnodup.2 hrest,
        List.lookup_cons_self]
      rfl

/-! ## The rules for one class -/

/-- What a list says of the rules for a class. -/
def ofTarget {α : Type} (target : String) (rules : List Rule) (l : List α) : List (Rule × α) :=
  (rules.zip l).filter (·.1.targetClass == target)

section

variable {inputs : Inputs} {rules : List Rule} {matched : List NameSet} {work : String} {fs : FileSystem}

/-- The rules for a class with their positions. -/
def numbered (target : String) (rules : List Rule) (matched : List NameSet) : List ((Rule × NameSet) × Nat) :=
  (rules.zip matched).zipIdx.filter (·.1.1.targetClass == target)

theorem rules_groupOf (target : String) (rules : List Rule) (matched : List NameSet) :
    (groupOf rules matched target).rules = activeOf (numbered target rules matched) := by
  show (activeRules rules matched).filter _ = _
  rw [activeRules, activeOf, numbered, List.filter_filter, List.filter_map, List.filter_map, List.filter_filter]
  congr 1
  apply List.filter_congr
  intro r _
  exact Bool.and_comm _ _

theorem nodup_numbered (target : String) (rules : List Rule) (matched : List NameSet) :
    ((numbered target rules matched).map (·.2)).Nodup := by
  apply List.Nodup.sublist (List.filter_sublist.map _)
  rw [List.zipIdx_map_snd]
  exact List.nodup_range'

theorem map_fst_numbered (target : String) (rules : List Rule) (matched : List NameSet) :
    (numbered target rules matched).map (·.1) = ofTarget target rules matched := by
  rw [ofTarget, ← List.zipIdx_map_fst 0 (rules.zip matched), List.filter_map]
  rfl

theorem map_fst_run_groupOf (target : String) : ((groupOf rules matched target).run inputs work fs).1.map (·.1) =
    (activeOf (numbered target rules matched)).map (·.index) := by
  rw [TargetGroup.map_fst_run, rules_groupOf]

/-- A rule finds its outcome among those of its group. -/
theorem lookup_all {target : String} {r : (Rule × NameSet) × Nat} (hr : r ∈ numbered target rules matched) :
    ((TargetGroup.all rules matched).flatMap fun g => (g.run inputs work fs).1).lookup r.2 =
      ((groupOf rules matched target).run inputs work fs).1.lookup r.2 := by
  obtain ⟨hmem, htarget⟩ := List.mem_filter.1 hr
  rw [all_eq, List.flatMap_map]
  apply lookup_flatMap
  · intro t _ ht
    apply lookup_eq_none
    rw [map_fst_run_groupOf]
    intro hkey
    obtain ⟨g, hg, hindex⟩ := List.mem_map.1 hkey
    obtain ⟨hmem', htarget'⟩ := List.mem_filter.1 (mem_of_mem_activeOf hg)
    rw [List.mem_zipIdx_iff_getElem?] at hmem hmem'
    have hsame : (g.rule, g.matched) = r.1 := by
      rw [← hindex] at hmem
      exact Option.some.inj (hmem'.symm.trans hmem)
    apply ht
    rw [← beq_iff_eq.1 htarget', ← beq_iff_eq.1 htarget, ← hsame]
  · intro hnot
    apply lookup_eq_none
    rw [TargetGroup.map_fst_run]
    intro hkey
    obtain ⟨g, hg, -⟩ := List.mem_map.1 hkey
    obtain ⟨hactive, hg⟩ := List.mem_filter.1 hg
    exact hnot (mem_targets.2 ⟨g, hactive, beq_iff_eq.1 hg⟩)

/-- The outcomes of the rules for a class, read off the outcomes of all groups. -/
theorem outcomes_ofTarget (inputs : Inputs) (work : String) (fs : FileSystem) (hmatched : matched.length = rules.length)
    (target : String) :
    (ofTarget target rules ((List.range rules.length).map fun index =>
      (((TargetGroup.all rules matched).flatMap fun g =>
        (g.run inputs work fs).1).lookup index).getD .noMatches)).map (·.2) =
    fill (ofTarget target rules matched) (((groupOf rules matched target).run inputs work fs).1.map (·.2)) := by
  have hzip (f : Nat → InjectionOutcome) : rules.zip ((List.range rules.length).map f) =
      (rules.zip matched).zipIdx.map fun r => (r.1.1, f r.2) := by
    apply List.ext_getElem
    · simp [hmatched]
    · intro i _ _
      simp
  rw [ofTarget, hzip, List.filter_map, List.map_map, ← map_fst_numbered,
    ← map_lookup_eq_fill (nodup_numbered target rules matched) (map_fst_run_groupOf target)]
  apply List.map_congr_left
  intro r hr
  exact congrArg (·.getD .noMatches) (lookup_all hr)

/-- A group holds the rules for its class that register something. -/
theorem map_content_groupOf (target : String) : (groupOf rules matched target).rules.map TargetGroup.content =
    (ofTarget target rules matched).filter fun r => !r.2.isEmpty := by
  rw [rules_groupOf, ← map_fst_numbered, List.filter_map, activeOf, List.filter_map, List.map_map]
  rfl

theorem mem_targets_iff {target : String} :
    target ∈ targets rules matched ↔ (groupOf rules matched target).rules.map TargetGroup.content ≠ [] := by
  rw [mem_targets, ne_eq, List.map_eq_nil_iff]
  show _ ↔ ¬ (activeRules rules matched).filter _ = []
  rw [List.filter_eq_nil_iff]
  simp

theorem exists_getElem?_all {target : String} (h : target ∈ targets rules matched) :
    ∃ i : Nat, (TargetGroup.all rules matched)[i]? = some (groupOf rules matched target) := by
  obtain ⟨i, hi, rfl⟩ := List.getElem_of_mem h
  refine ⟨i, ?_⟩
  rw [all_eq, List.getElem?_map, List.getElem?_eq_getElem hi, Option.map_some]

theorem separable_all (matched : List NameSet) (hproper : ∀ r ∈ rules, IsProperName r.targetClass)
    (hbeside : Pool.Beside inputs work fs) : Pool.Separable (TargetGroup.all rules matched) inputs work fs := by
  refine ⟨hbeside, fun g hg => ?_, ?_⟩
  · rw [all_eq] at hg
    obtain ⟨target, htarget, rfl⟩ := List.mem_map.1 hg
    obtain ⟨r, hr, rfl⟩ := mem_targets.1 htarget
    obtain ⟨⟨⟨rule, names⟩, index⟩, hentry, rfl⟩ := List.mem_map.1 (List.mem_filter.1 hr).1
    exact hproper rule (List.of_mem_zip (List.fst_mem_of_mem_zipIdx hentry)).1
  · rw [all_eq, List.map_map]
    exact (List.map_id _).symm ▸ nodup_targets rules matched

/-- The outcomes of groups of which each had its turns. -/
theorem flatMap_outcomes {groups : List TargetGroup} (hseparable : Pool.Separable groups inputs work fs)
    {schedule : List Nat} (hschedule : ∀ i < groups.length, 5 ≤ schedule.count i) :
    ((List.range groups.length).flatMap fun i =>
      ((Pool.run groups inputs work schedule (.start fs)).progress i).outcomes) =
        groups.flatMap fun g => (g.run inputs work fs).1 := by
  rw [List.flatMap_def, List.flatMap_def]
  congr 1
  apply List.ext_getElem
  · simp
  · intro i hi _
    rw [List.length_map, List.length_range] at hi
    have hfollows := Pool.run_isolated hseparable (List.getElem?_eq_getElem hi) (hschedule i hi)
    rw [List.getElem_map, List.getElem_map, List.getElem_range, hfollows.progress]
    rfl

/-- Groups for one class are one group, or none. -/
theorem all_of_forall (matched : List NameSet) {target : String} (h : ∀ r ∈ rules, r.targetClass = target) :
    TargetGroup.all rules matched = [] ∨ TargetGroup.all rules matched = [groupOf rules matched target] := by
  have hall : ∀ t ∈ targets rules matched, t = target := by
    intro t ht
    obtain ⟨r, hr, rfl⟩ := mem_targets.1 ht
    obtain ⟨⟨⟨rule, names⟩, index⟩, hentry, rfl⟩ := List.mem_map.1 (List.mem_filter.1 hr).1
    exact h rule (List.of_mem_zip (List.fst_mem_of_mem_zipIdx hentry)).1
  have hnodup := nodup_targets rules matched
  rw [all_eq]
  generalize targets rules matched = names at hall hnodup
  cases names with
  | nil => exact .inl rfl
  | cons first others =>
    rw [List.forall_mem_cons] at hall
    obtain ⟨rfl, hothers⟩ := hall
    cases others with
    | nil => exact .inr rfl
    | cons second others =>
      obtain rfl := hothers second List.mem_cons_self
      exact absurd List.mem_cons_self (List.nodup_cons.1 hnodup).1

/-- What the rules for a class do without all other rules. -/
def injectOnly (target : String) (inputs : Inputs) (rules : List Rule) (matched : List NameSet) (work : String)
    (fs : FileSystem) : List InjectionOutcome × FileSystem :=
  let own := ofTarget target rules matched
  injectAll inputs (own.map (·.1)) (own.map (·.2)) work fs

theorem ofTarget_ofTarget (rules : List Rule) (matched : List NameSet) (target : String) :
    ofTarget target ((ofTarget target rules matched).map (·.1)) ((ofTarget target rules matched).map (·.2)) =
      ofTarget target rules matched := by
  have hzip (l : List (Rule × NameSet)) : (l.map (·.1)).zip (l.map (·.2)) = l := by
    rw [List.zip_map', List.map_id']
  rw [ofTarget, hzip, ofTarget, List.filter_filter]
  simp

theorem forall_ofTarget {target : String} :
    ∀ r ∈ (ofTarget target rules matched).map (·.1), r.targetClass = target := by
  intro r hr
  obtain ⟨entry, hentry, rfl⟩ := List.mem_map.1 hr
  exact beq_iff_eq.1 (List.mem_filter.1 hentry).2

theorem map_snd_ofTarget {α : Type} {target : String} {rules : List Rule} (h : ∀ r ∈ rules, r.targetClass = target)
    {l : List α} (hlength : l.length = rules.length) : (ofTarget target rules l).map (·.2) = l := by
  have hall : (rules.zip l).filter (·.1.targetClass == target) = rules.zip l := by
    rw [List.filter_eq_self]
    intro entry hentry
    exact beq_iff_eq.2 (h entry.1 (List.of_mem_zip hentry).1)
  rw [ofTarget, hall, List.map_snd_zip (Nat.le_of_eq hlength)]

/-- What the rules for a class do without others, by the run of their group. -/
theorem injectOnly_eq (inputs : Inputs) (rules : List Rule) (matched : List NameSet) (work : String) (fs : FileSystem)
    (target : String) :
    (injectOnly target inputs rules matched work fs).1 =
      fill (ofTarget target rules matched) (((groupOf rules matched target).run inputs work fs).1.map (·.2)) ∧
    (target ∈ targets rules matched →
      (injectOnly target inputs rules matched work fs).2 = ((groupOf rules matched target).run inputs work fs).2) := by
  unfold injectOnly
  have hown : ∀ r ∈ (ofTarget target rules matched).map (·.1), r.targetClass = target := forall_ofTarget
  have hsame := ofTarget_ofTarget rules matched target
  have hlength : ((ofTarget target rules matched).map (·.2)).length =
      ((ofTarget target rules matched).map (·.1)).length := by
    rw [List.length_map, List.length_map]
  dsimp only
  generalize (ofTarget target rules matched).map (·.1) = ownRules at hown hsame hlength ⊢
  generalize (ofTarget target rules matched).map (·.2) = ownMatched at hsame hlength ⊢
  have hcontent : (groupOf rules matched target).rules.map TargetGroup.content =
      (groupOf ownRules ownMatched target).rules.map TargetGroup.content := by
    rw [map_content_groupOf, map_content_groupOf, hsame]
  have htargets : (groupOf rules matched target).target = (groupOf ownRules ownMatched target).target := rfl
  obtain ⟨houtcomes, hfs⟩ := TargetGroup.run_congr inputs work fs htargets hcontent
  constructor
  · have hall : (TargetGroup.runAll inputs work (TargetGroup.all ownRules ownMatched) fs).1 =
        (TargetGroup.all ownRules ownMatched).flatMap fun g => (g.run inputs work fs).1 := by
      rcases all_of_forall ownMatched hown with hnone | hone
      · rw [hnone]
        rfl
      · rw [hone]
        rfl
    have hread := outcomes_ofTarget inputs work fs hlength target
    rw [map_snd_ofTarget hown (by rw [List.length_map, List.length_range]), hsame, ← houtcomes, ← hall] at hread
    exact hread
  · intro htarget
    rw [hfs]
    rcases all_of_forall ownMatched hown with hnone | hone
    · have hmem := mem_targets_iff.2 (hcontent ▸ mem_targets_iff.1 htarget)
      rw [all_eq, List.map_eq_nil_iff] at hnone
      rw [hnone] at hmem
      cases hmem
    · unfold injectAll
      rw [hone]
      rfl

/-- **Isolation.** Under any schedule in which each group has its turns, the rules for a class have the outcomes that
they have without all other rules, and the copies of changed classes hold the same bytes: those of the changed class.
They can be read in the one case if they can be read in the other. The names of the classes must be proper, and the
roots must stand beside the directory of copies. -/
theorem injectUnder_isolated {schedule : List Nat} (hmatched : matched.length = rules.length)
    (hproper : ∀ r ∈ rules, IsProperName r.targetClass) (hbeside : Pool.Beside inputs work fs)
    (hschedule : ∀ i < (TargetGroup.all rules matched).length, 5 ≤ schedule.count i) (target : String) :
    (ofTarget target rules (injectUnder schedule inputs rules matched work fs).1).map (·.2) =
      (injectOnly target inputs rules matched work fs).1 ∧
    ∀ entry path registered methods,
      .injected entry path registered methods ∈ (injectOnly target inputs rules matched work fs).1 →
      ∃ data, (groupOf rules matched target).Rewrites inputs work fs data ∧
        (injectOnly target inputs rules matched work fs).2.data? path = some data ∧
        (injectUnder schedule inputs rules matched work fs).2.data? path = some data ∧
        (injectUnder schedule inputs rules matched work fs).2.read path =
          (injectOnly target inputs rules matched work fs).2.read path := by
  have hseparable := separable_all matched hproper hbeside
  obtain ⟨houtcomes, hfs⟩ := injectOnly_eq inputs rules matched work fs target
  constructor
  · rw [houtcomes, ← outcomes_ofTarget inputs work fs hmatched, ← flatMap_outcomes hseparable hschedule]
    rfl
  · intro entry path registered methods hinjected
    rw [houtcomes] at hinjected
    obtain ⟨index, hmem⟩ : ∃ index, (index, .injected entry path registered methods) ∈
        ((groupOf rules matched target).run inputs work fs).1 := by
      rcases mem_of_mem_fill hinjected with hnone | hmem
      · cases hnone
      · obtain ⟨⟨index, _⟩, hmem, rfl⟩ := List.mem_map.1 hmem
        exact ⟨index, hmem⟩
    have htarget : target ∈ targets rules matched := by
      rw [mem_targets_iff]
      intro hnone
      have hkeys := TargetGroup.map_fst_run (groupOf rules matched target) inputs work fs
      rw [List.map_eq_nil_iff.1 hnone, List.map_nil, List.map_eq_nil_iff] at hkeys
      rw [hkeys] at hmem
      cases hmem
    obtain ⟨i, hi⟩ := exists_getElem?_all htarget
    have hturns := hschedule i (List.getElem?_eq_some_iff.1 hi).1
    obtain ⟨rfl, data, hrewrites, hdata⟩ := TargetGroup.exists_of_injected hmem
    rw [hfs htarget]
    have hcopy := (Pool.run_isolated hseparable hi hturns).node?_copyPath hseparable hi
    obtain ⟨n, hn⟩ : ∃ n, ((groupOf rules matched target).run inputs work fs).2.node?
        ((groupOf rules matched target).copyPath work) = some n := by
      rw [FileSystem.data?] at hdata
      split at hdata
      · next hn => exact ⟨_, hn⟩
      · cases hdata
    refine ⟨data, hrewrites, hdata, ?_, ?_⟩
    · rw [← hdata]
      unfold FileSystem.data?
      rw [hcopy]
      rfl
    · exact (FileSystem.read_eq (hcopy.symm.trans hn)).trans (FileSystem.read_eq hn).symm

end

/-! ## Two classes -/

/-- A class with a method `r` to register the class `B`. -/
def registrar (name : String) : ClassFile where
  minorVersion := 0
  majorVersion := 61
  pool := ⟨#[.unusable, .ofText name, .classRef 1, .ofText "java/lang/Object", .classRef 3, .ofText "r",
    .ofText "(LB;)V"]⟩
  access := ⟨0x21⟩
  thisClass := 2
  superClass := 4
  interfaces := []
  fields := []
  methods := [⟨.static, 5, 6, []⟩]
  attributes := []

def registrarBytes (name : String) : List UInt8 :=
  match (registrar name).encode with
  | .ok bytes => bytes
  | .error _ => []

/-- An archive with two classes. -/
def twoClasses (a b : String) : FileSystem where
  root := .directory .full [("in.jar", .file .full (.ofArchive
    [⟨classEntryName a, .bytes (registrarBytes a)⟩, ⟨classEntryName b, .bytes (registrarBytes b)⟩]))]
  workingDirectory := []

/-- A rule for each of them. -/
def twoRules (a b : String) : List Rule :=
  [{ registryRule with targetClass := a }, { registryRule with targetClass := b }]

/-- Both rules register `B`. -/
def twoMatched : List NameSet := [.ofList ["B"], .ofList ["B"]]

/-- One of two classes, and where its copy is. -/
structure OneOfTwo where
  /-- The two classes. -/
  first : String
  second : String
  /-- One of them. -/
  chosen : String
  /-- The directory of its copy. -/
  above : String
  /-- The name of its copy. -/
  name : String
deriving DecidableEq

namespace OneOfTwo

/-- The path of its copy. -/
def copy (c : OneOfTwo) : String := c.above ++ "/" ++ c.name

/-- The group of the class. -/
def group (c : OneOfTwo) : TargetGroup := groupOf (twoRules c.first c.second) twoMatched c.chosen

/-- The class with the call for `B`. -/
def data (c : OneOfTwo) : List UInt8 :=
  match ((ClassDraft.of (registrar c.chosen)).injectRules c.group.rules).1.encodeReadable with
  | .ok data => data
  | .error _ => []

end OneOfTwo

/-- The class `a` among two others, and each of two classes with the same path for their copies. -/
def someOfTwo : List OneOfTwo :=
  [⟨"a", "b", "a", "w/classes", "a.class"⟩, ⟨"a//b", "a/b", "a//b", "w/classes/a", "b.class"⟩,
    ⟨"a//b", "a/b", "a/b", "w/classes/a", "b.class"⟩]

namespace OneOfTwo

theorem change_group {c : OneOfTwo} (h : c ∈ someOfTwo) : c.group.change
    (c.group.copyOf "w" (.archive "in.jar") (registrarBytes c.chosen)) =
      .ok (c.data, ((ClassDraft.of (registrar c.chosen)).injectRules c.group.rules).2) := by
  have hdecode : ∀ c ∈ someOfTwo, ClassFile.decode (registrarBytes c.chosen) = .ok (registrar c.chosen) := by
    decide +kernel
  have hname : ∀ c ∈ someOfTwo, (registrar c.chosen).name = .ok c.chosen := by decide +kernel
  have hany : ∀ c ∈ someOfTwo,
      TargetGroup.anyApplied ((ClassDraft.of (registrar c.chosen)).injectRules c.group.rules).2 = true := by
    decide +kernel
  have hencode : ∀ c ∈ someOfTwo,
      ((ClassDraft.of (registrar c.chosen)).injectRules c.group.rules).1.encodeReadable = .ok c.data := by
    decide +kernel
  have hcopy : (c.group.copyOf "w" (.archive "in.jar") (registrarBytes c.chosen)).decode c.chosen =
      .ok (registrar c.chosen) := Materialized.decode_eq_ok_iff.2 ⟨hdecode c h, hname c h⟩
  unfold TargetGroup.change
  rw [show c.group.target = c.chosen from rfl, hcopy]
  dsimp only
  rw [if_pos (hany c h), hencode c h]

/-- Alone, the class is changed, and its copy holds the changed class. -/
theorem injectOnly_chosen {c : OneOfTwo} (h : c ∈ someOfTwo) :
    .injected (classEntryName c.chosen) c.copy 1 1 ∈ (injectOnly c.chosen ⟨[], ["in.jar"]⟩
      (twoRules c.first c.second) twoMatched "w" (twoClasses c.first c.second)).1 ∧
    (injectOnly c.chosen ⟨[], ["in.jar"]⟩ (twoRules c.first c.second) twoMatched "w"
      (twoClasses c.first c.second)).2.read c.copy = .ok c.data := by
  have hlocate : ∀ c ∈ someOfTwo, Inputs.locate? ⟨[], ["in.jar"]⟩ (twoClasses c.first c.second) c.chosen =
      some (.archive "in.jar") := by decide +kernel
  have hread : ∀ c ∈ someOfTwo, Root.readEntry (twoClasses c.first c.second) (classEntryName c.chosen)
      (.archive "in.jar") = .ok (registrarBytes c.chosen) := by decide +kernel
  have hpath : ∀ c ∈ someOfTwo, c.group.copyPath "w" = c.copy := by decide +kernel
  have hfill : ∀ c ∈ someOfTwo, fill (ofTarget c.chosen (twoRules c.first c.second) twoMatched)
      ((TargetGroup.outcomes (c.group.copyOf "w" (.archive "in.jar") (registrarBytes c.chosen)) none
        ((ClassDraft.of (registrar c.chosen)).injectRules c.group.rules).2).map (·.2)) =
          [.injected (classEntryName c.chosen) c.copy 1 1] := by decide +kernel
  have htargets : ∀ c ∈ someOfTwo, c.chosen ∈ targets (twoRules c.first c.second) twoMatched := by decide +kernel
  have hcopy : ∀ c ∈ someOfTwo, FileSystem.succeeds (FileSystem.writeBelow c.copy (registrarBytes c.chosen)
      (twoClasses c.first c.second)) = true := by decide +kernel
  have hwrite : ∀ c ∈ someOfTwo, FileSystem.succeeds (FileSystem.writeBelow c.copy c.data
      (FileSystem.after (FileSystem.writeBelow c.copy (registrarBytes c.chosen)
        (twoClasses c.first c.second)))) = true := by decide +kernel
  have hreadable : ∀ c ∈ someOfTwo, ((FileSystem.after (FileSystem.writeBelow c.copy c.data
      (FileSystem.after (FileSystem.writeBelow c.copy (registrarBytes c.chosen)
        (twoClasses c.first c.second))))).read c.copy).isOk = true := by decide +kernel
  have hfirst := FileSystem.eq_ok_of_succeeds (hcopy c h)
  have hsecond := FileSystem.eq_ok_of_succeeds (hwrite c h)
  have hcanread := hreadable c h
  generalize FileSystem.after (FileSystem.writeBelow c.copy (registrarBytes c.chosen)
    (twoClasses c.first c.second)) = fs₁ at hfirst hsecond hcanread
  generalize FileSystem.after (FileSystem.writeBelow c.copy c.data fs₁) = fs₂ at hsecond hcanread
  have hcopied : fs₂.read c.copy = .ok c.data := by
    cases hread : fs₂.read c.copy with
    | error fault =>
      rw [hread] at hcanread
      cases hcanread
    | ok data =>
      have hdata := (FileSystem.data?_of_read hread).symm.trans (FileSystem.data?_of_writeBelow hsecond)
      rw [Option.some.inj hdata]
  rw [← hpath c h] at hfirst hsecond
  have hrun : c.group.run ⟨[], ["in.jar"]⟩ "w" (twoClasses c.first c.second) = _ :=
    TargetGroup.run_eq_of (hlocate c h) (hread c h) hfirst (change_group h) hsecond
  obtain ⟨houtcomes, hfs⟩ := injectOnly_eq ⟨[], ["in.jar"]⟩ (twoRules c.first c.second) twoMatched "w"
    (twoClasses c.first c.second) c.chosen
  rw [show groupOf (twoRules c.first c.second) twoMatched c.chosen = c.group from rfl, hrun] at houtcomes hfs
  constructor
  · rw [houtcomes, hfill c h]
    exact List.mem_singleton_self _
  · rw [hfs (htargets c h)]
    exact hcopied

end OneOfTwo

theorem injectUnder_isolated_two :
    (ofTarget "a" (twoRules "a" "b") (injectUnder [0, 1, 0, 1, 1, 0, 0, 1, 1, 0] ⟨[], ["in.jar"]⟩ (twoRules "a" "b")
      twoMatched "w" (twoClasses "a" "b")).1).map (·.2) =
        (injectOnly "a" ⟨[], ["in.jar"]⟩ (twoRules "a" "b") twoMatched "w" (twoClasses "a" "b")).1 ∧
    .injected "a.class" "w/classes/a.class" 1 1 ∈
      (injectOnly "a" ⟨[], ["in.jar"]⟩ (twoRules "a" "b") twoMatched "w" (twoClasses "a" "b")).1 ∧
    ∃ data, (groupOf (twoRules "a" "b") twoMatched "a").Rewrites ⟨[], ["in.jar"]⟩ "w" (twoClasses "a" "b") data ∧
      (injectOnly "a" ⟨[], ["in.jar"]⟩ (twoRules "a" "b") twoMatched "w" (twoClasses "a" "b")).2.read
        "w/classes/a.class" = .ok data ∧
      (injectUnder [0, 1, 0, 1, 1, 0, 0, 1, 1, 0] ⟨[], ["in.jar"]⟩ (twoRules "a" "b") twoMatched "w"
        (twoClasses "a" "b")).2.read "w/classes/a.class" = .ok data := by
  have hproper : ∀ r ∈ twoRules "a" "b", IsProperName r.targetClass := by decide +kernel
  have hbeside : Pool.Beside ⟨[], ["in.jar"]⟩ "w" (twoClasses "a" "b") := ⟨by decide +kernel, by decide +kernel⟩
  have hschedule : ∀ i < (TargetGroup.all (twoRules "a" "b") twoMatched).length,
      5 ≤ [0, 1, 0, 1, 1, 0, 0, 1, 1, 0].count i := by decide +kernel
  obtain ⟨hinjected, hread⟩ := OneOfTwo.injectOnly_chosen
    (show (⟨"a", "b", "a", "w/classes", "a.class"⟩ : OneOfTwo) ∈ someOfTwo from List.mem_cons_self)
  obtain ⟨houtcomes, hcopies⟩ := injectUnder_isolated rfl hproper hbeside hschedule "a"
  obtain ⟨data, hrewrites, hdata, -, hsame⟩ := hcopies _ _ _ _ hinjected
  obtain rfl := Option.some.inj (hdata.symm.trans (FileSystem.data?_of_read hread))
  exact ⟨houtcomes, hinjected, _, hrewrites, hread, hsame.trans hread⟩

theorem not_forall_read_injectUnder :
    ¬ ∀ (inputs : Inputs) (rules : List Rule) (matched : List NameSet) (work : String) (fs : FileSystem)
      (schedule : List Nat) (target entry path : String) (registered methods : Nat), matched.length = rules.length →
      Pool.Beside inputs work fs → (∀ i < (TargetGroup.all rules matched).length, 5 ≤ schedule.count i) →
      .injected entry path registered methods ∈ (injectOnly target inputs rules matched work fs).1 →
      (injectUnder schedule inputs rules matched work fs).2.read path =
        (injectOnly target inputs rules matched work fs).2.read path := by
  intro h
  have hbeside : Pool.Beside ⟨[], ["in.jar"]⟩ "w" (twoClasses "a//b" "a/b") := ⟨by decide +kernel, by decide +kernel⟩
  have hschedule : ∀ i < (TargetGroup.all (twoRules "a//b" "a/b") twoMatched).length,
      5 ≤ (Pool.sequential 0 2).count i := by decide +kernel
  have hread (chosen : String) (hchosen : (⟨"a//b", "a/b", chosen, "w/classes/a", "b.class"⟩ : OneOfTwo) ∈ someOfTwo) :
      (injectUnder (Pool.sequential 0 2) ⟨[], ["in.jar"]⟩ (twoRules "a//b" "a/b") twoMatched "w"
        (twoClasses "a//b" "a/b")).2.read "w/classes/a/b.class" =
          .ok (OneOfTwo.data ⟨"a//b", "a/b", chosen, "w/classes/a", "b.class"⟩) := by
    obtain ⟨hinjected, halone⟩ := OneOfTwo.injectOnly_chosen hchosen
    exact (h _ _ _ _ _ _ _ _ _ _ _ rfl hbeside hschedule hinjected).trans halone
  have hfirst := hread "a//b" (by decide)
  have hsecond := hread "a/b" (by decide)
  exact absurd (Except.ok.inj (hfirst.symm.trans hsecond)) (by decide +kernel)

end Registrar
