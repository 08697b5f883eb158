import Registrar.Proofs.Growth
import Registrar.Proofs.Isolation

/-!
# What the groups leave behind

Whatever the order in which the groups take turns, and whatever else is written at the places of their copies:

* `grows_advance` : a turn makes directories and writes the copy;
* `Held` : at some time a root held an entry;
* `TargetGroup.Delivers` : where calls were put into a class, a root held it, and there is a copy;
* `TargetGroup.OnTrack` : what is known of a group on its way, kept by its own turns (`onTrack_advance`) and by those of
  others (`OnTrack.mono`);
* `Pool.Delivering` : all groups are on their way (`delivering_run`);
* `delivers_of_injectUnder` : what is known of a class into which calls were put.
-/

namespace Registrar

open FileSystem (Grows after createAbove writeData)

/-! ## Turns -/

/-- At some time a root held an entry. Since then the file system has grown. -/
def Held (inputs : Inputs) (written : List String → Prop) (fs : FileSystem) (entry : String) : Prop :=
  ∃ root ∈ inputs.roots, ∃ fs₀, root.holds fs₀ entry = true ∧ Grows written fs₀ fs

theorem Held.mono {inputs : Inputs} {written : List String → Prop} {fs fs' : FileSystem} {entry : String}
    (h : Held inputs written fs entry) (hgrows : Grows written fs fs') : Held inputs written fs' entry := by
  obtain ⟨root, hroot, fs₀, hholds, hbefore⟩ := h
  exact ⟨root, hroot, fs₀, hholds, hbefore.trans hgrows⟩

namespace TargetGroup

/-- What is known of a class into which calls were put. -/
structure Delivers (g : TargetGroup) (inputs : Inputs) (work : String) (written : List String → Prop) (fs : FileSystem)
    (entry path : String) : Prop where
  entry_eq : entry = classEntryName g.target
  path_eq : path = g.copyPath work
  held : Held inputs written fs entry
  copy : fs.isFile path = true

/-- What is known of a group on its way. -/
def OnTrack (g : TargetGroup) (inputs : Inputs) (work : String) (written : List String → Prop) (fs : FileSystem) :
    Progress → Prop
  | .waiting => True
  | .found _ _ => Held inputs written fs (classEntryName g.target)
  | .ready _ _ => Held inputs written fs (classEntryName g.target)
  | .copied _ _ => Held inputs written fs (classEntryName g.target)
  | .changed _ _ _ results =>
    Held inputs written fs (classEntryName g.target) ∧ results.map (·.1) = g.rules.map (·.index)
  | .finished outcomes => outcomes.map (·.1) = g.rules.map (·.index) ∧ ∀ r ∈ outcomes, ∀ entry path registered methods,
    r.2 = .injected entry path registered methods → g.Delivers inputs work written fs entry path

section

variable {g : TargetGroup} {inputs : Inputs} {work : String} {written : List String → Prop} {fs fs' : FileSystem}
variable {p : Progress}

theorem Delivers.mono {entry path : String} (h : g.Delivers inputs work written fs entry path)
    (hgrows : Grows written fs fs') : g.Delivers inputs work written fs' entry path := by
  exact ⟨h.entry_eq, h.path_eq, h.held.mono hgrows, hgrows.isFile h.copy⟩

theorem OnTrack.mono (h : g.OnTrack inputs work written fs p) (hgrows : Grows written fs fs') :
    g.OnTrack inputs work written fs' p := by
  cases p with
  | waiting => trivial
  | found root bytes => exact Held.mono h hgrows
  | ready root bytes => exact Held.mono h hgrows
  | copied root bytes => exact Held.mono h hgrows
  | changed root bytes data results => exact ⟨h.1.mono hgrows, h.2⟩
  | finished outcomes =>
    exact ⟨h.1, fun r hr entry path registered methods heq =>
      (h.2 r hr entry path registered methods heq).mono hgrows⟩

/-- A turn makes directories and writes the copy. -/
theorem grows_advance (hwritten : written (fs.destination (g.copyPath work))) :
    Grows written fs (g.advance inputs work p fs).2 := by
  rcases g.advance_snd inputs work p fs with h | h | ⟨data, h⟩
  · rw [h]
    exact .refl
  · rw [h]
    exact FileSystem.grows_createAbove
  · rw [h]
    exact FileSystem.grows_writeData hwritten

theorem onTrack_finished {outcomes : List (Nat × InjectionOutcome)}
    (hindices : outcomes.map (·.1) = g.rules.map (·.index)) (hnone : ∀ r ∈ outcomes, r.2.isInjected = false) :
    g.OnTrack inputs work written fs (.finished outcomes) := by
  refine ⟨hindices, fun r hr entry path registered methods heq => ?_⟩
  have hnot := hnone r hr
  rw [heq] at hnot
  cases hnot

theorem onTrack_skipAll (error : TargetError) : g.OnTrack inputs work written fs (.finished (g.skipAll error)) := by
  refine onTrack_finished ?_ fun r => not_isInjected_skipAll error
  rw [skipAll, List.map_map]
  rfl

theorem map_fst_outcomes (m : Materialized) (failure : Option TargetError) (results : GroupResults) :
    (outcomes m failure results).map (·.1) = results.map (·.1) := by
  rw [outcomes, List.map_map]
  rfl

/-- Each rule has an outcome or a result. -/
theorem map_fst_change (g : TargetGroup) (m : Materialized) :
    (∀ outs, g.change m = .error outs → outs.map (·.1) = g.rules.map (·.index)) ∧
      ∀ data results, g.change m = .ok (data, results) → results.map (·.1) = g.rules.map (·.index) := by
  unfold change
  cases m.decode g.target with
  | error error =>
    refine ⟨fun outs h => ?_, fun data results h => by cases h⟩
    cases h
    rw [skipAll, List.map_map]
    rfl
  | ok file =>
    have hresults := map_fst_injectRules (ClassDraft.of file) g.rules
    dsimp only
    split
    · cases ((ClassDraft.of file).injectRules g.rules).1.encodeReadable with
      | error reason =>
        refine ⟨fun outs h => ?_, fun data results h => by cases h⟩
        cases h
        exact (map_fst_outcomes m _ _).trans hresults
      | ok data =>
        refine ⟨fun outs h => (by cases h), fun data' results h => ?_⟩
        cases h
        exact hresults
    · refine ⟨fun outs h => ?_, fun data results h => by cases h⟩
      cases h
      exact (map_fst_outcomes m _ _).trans hresults

theorem eq_of_outcome_eq_injected {m : Materialized} {result : Except TargetError RuleInjection} {entry path : String}
    {registered methods : Nat} (h : outcome m none result = .injected entry path registered methods) :
    entry = m.entryName ∧ path = m.scratchPath := by
  cases result <;> cases h
  exact ⟨rfl, rfl⟩

/-- A group stays on its way in its own turns. -/
theorem onTrack_advance (hwritten : written (fs.destination (g.copyPath work)))
    (h : g.OnTrack inputs work written fs p) :
    g.OnTrack inputs work written (g.advance inputs work p fs).2 (g.advance inputs work p fs).1 := by
  have hcreate : Grows written fs (after (createAbove (g.copyPath work) fs)) := FileSystem.grows_createAbove
  have hwrite (data : List UInt8) : Grows written fs (after (writeData (g.copyPath work) data fs)) :=
    FileSystem.grows_writeData hwritten
  cases p with
  | waiting =>
    simp only [advance]
    cases hlocate : inputs.locate? fs g.target with
    | none => exact onTrack_skipAll _
    | some root =>
      dsimp only
      cases hread : root.readEntry fs (classEntryName g.target) with
      | error cause => exact onTrack_skipAll _
      | ok bytes => exact ⟨root, List.mem_of_find?_eq_some hlocate, fs, List.find?_some hlocate, .refl⟩
  | found root bytes =>
    simp only [advance]
    cases hrun : createAbove (g.copyPath work) fs with
    | error cause fs' => exact onTrack_skipAll _
    | ok u fs' =>
      rw [hrun] at hcreate
      exact Held.mono h hcreate
  | ready root bytes =>
    simp only [advance]
    have hwritten := hwrite bytes
    cases hrun : writeData (g.copyPath work) bytes fs with
    | error cause fs' => exact onTrack_skipAll _
    | ok u fs' =>
      rw [hrun] at hwritten
      exact Held.mono h hwritten
  | copied root bytes =>
    obtain ⟨hfailed, hchanged⟩ := g.map_fst_change (g.copyOf work root bytes)
    simp only [advance]
    cases hchange : g.change (g.copyOf work root bytes) with
    | error outcomes => exact onTrack_finished (hfailed _ hchange) fun r => not_isInjected_of_change hchange
    | ok changed =>
      have hindices := hchanged _ _ hchange
      dsimp only
      cases hrun : createAbove (g.copyPath work) fs with
      | error cause fs' =>
        exact onTrack_finished ((map_fst_outcomes _ _ _).trans hindices) fun r => not_isInjected_outcomes
      | ok u fs' =>
        rw [hrun] at hcreate
        exact ⟨Held.mono h hcreate, hindices⟩
  | changed root bytes data results =>
    obtain ⟨hheld, hindices⟩ := h
    simp only [advance]
    have hgrown := hwrite data
    cases hrun : writeData (g.copyPath work) data fs with
    | error cause fs' =>
      exact onTrack_finished ((map_fst_outcomes _ _ _).trans hindices) fun r => not_isInjected_outcomes
    | ok u fs' =>
      rw [hrun] at hgrown
      refine ⟨(map_fst_outcomes _ _ _).trans hindices, fun r hr entry path registered methods heq => ?_⟩
      obtain ⟨result, -, rfl⟩ := List.mem_map.1 hr
      obtain ⟨rfl, rfl⟩ := eq_of_outcome_eq_injected heq
      have hdata : FileSystem.write (g.copyPath work) (.ofBytes data) fs = .ok () fs' := by
        unfold writeData EStateM.adaptExcept at hrun
        split at hrun
        · cases hrun
        · next hwrote =>
          cases hrun
          exact hwrote
      obtain ⟨access, hfind⟩ := FileSystem.find_of_write hdata
      exact ⟨rfl, rfl, hheld.mono hgrown, FileSystem.isFile_eq_true_iff.2 ⟨_, access, _, hfind⟩⟩
  | finished outcomes => exact h

end

end TargetGroup

/-! ## All groups -/

/-- The places of the copies of some groups. -/
def CopyPlaces (groups : List TargetGroup) (work : String) (fs : FileSystem) (place : List String) : Prop :=
  ∃ g ∈ groups, place = fs.destination (g.copyPath work)

/-- All groups are on their way, and nothing but their copies was written. -/
structure Pool.Delivering (groups : List TargetGroup) (inputs : Inputs) (work : String) (fs : FileSystem) (p : Pool) :
    Prop where
  grows : Grows (CopyPlaces groups work fs) fs p.fs
  onTrack (i : Nat) (g : TargetGroup) :
    groups[i]? = some g → g.OnTrack inputs work (CopyPlaces groups work fs) p.fs (p.progress i)

namespace Pool

variable {groups : List TargetGroup} {inputs : Inputs} {work : String} {fs : FileSystem} {p : Pool}

theorem delivering_start : Delivering groups inputs work fs (.start fs) := ⟨.refl, fun _ _ _ => trivial⟩

theorem delivering_turn (h : Delivering groups inputs work fs p) (i : Nat) :
    Delivering groups inputs work fs (turn groups inputs work p i) := by
  unfold turn
  cases hg : groups[i]? with
  | none => exact h
  | some g =>
    have hwritten : CopyPlaces groups work fs (p.fs.destination (g.copyPath work)) :=
      ⟨g, List.mem_of_getElem? hg, h.grows.destination_eq _⟩
    have hgrown : Grows (CopyPlaces groups work fs) p.fs (g.advance inputs work (p.progress i) p.fs).2 :=
      TargetGroup.grows_advance hwritten
    refine ⟨h.grows.trans hgrown, fun j g' hg' => ?_⟩
    by_cases hj : j = i
    · subst hj
      obtain rfl := Option.some.inj (hg.symm.trans hg')
      show g.OnTrack _ _ _ _ (Function.update p.progress j _ j)
      rw [Function.update_self]
      exact TargetGroup.onTrack_advance hwritten (h.onTrack j g hg)
    · show g'.OnTrack _ _ _ _ (Function.update p.progress i _ j)
      rw [Function.update_of_ne hj]
      exact (h.onTrack j g' hg').mono hgrown

/-- Under any schedule the groups stay on their way. -/
theorem delivering_run (h : Delivering groups inputs work fs p) (schedule : List Nat) :
    Delivering groups inputs work fs (run groups inputs work schedule p) := by
  induction schedule generalizing p with
  | nil => exact h
  | cons i schedule ih =>
    rw [run_cons]
    exact ih (delivering_turn h i)

end Pool

/-! ## All rules -/

theorem getElem?_of_mem_activeRules {rules : List Rule} {matched : List NameSet} {r : GroupRule}
    (h : r ∈ activeRules rules matched) : rules[r.index]? = some r.rule := by
  obtain ⟨⟨⟨rule, names⟩, index⟩, hentry, rfl⟩ := List.mem_map.1 (List.mem_filter.1 h).1
  rw [List.mem_zipIdx_iff_getElem?, List.getElem?_zip_eq_some] at hentry
  exact hentry.1

/-- The places of the copies of the classes that rules name. -/
def RuleCopies (rules : List Rule) (work : String) (fs : FileSystem) (place : List String) : Prop :=
  ∃ r ∈ rules, place = fs.destination (scratchPath work (classEntryName r.targetClass))

/-- Where calls were put into a class, a root held it at some time, and there is a copy. -/
theorem delivers_of_injectUnder {schedule : List Nat} {inputs : Inputs} {rules : List Rule} {matched : List NameSet}
    {work : String} {fs fs' : FileSystem} {outcomes : List InjectionOutcome}
    (h : injectUnder schedule inputs rules matched work fs = (outcomes, fs')) :
    Grows (RuleCopies rules work fs) fs fs' ∧ ∀ (i : Nat) (entry path : String) (registered methods : Nat),
      outcomes[i]? = some (.injected entry path registered methods) → ∃ r, rules[i]? = some r ∧
        entry = classEntryName r.targetClass ∧ path = scratchPath work entry ∧
        Held inputs (RuleCopies rules work fs) fs' entry ∧ fs'.isFile path = true := by
  obtain ⟨rfl, rfl⟩ := Prod.mk.inj h
  have hdelivering : Pool.Delivering (TargetGroup.all rules matched) inputs work fs _ :=
    Pool.delivering_run Pool.delivering_start schedule
  generalize Pool.run (TargetGroup.all rules matched) inputs work schedule (.start fs) = p at hdelivering ⊢
  have hplaces : ∀ place, CopyPlaces (TargetGroup.all rules matched) work fs place → RuleCopies rules work fs place := by
    rintro place ⟨g, hg, hplace⟩
    rw [all_eq] at hg
    obtain ⟨target, htarget, rfl⟩ := List.mem_map.1 hg
    obtain ⟨r, hr, rfl⟩ := mem_targets.1 htarget
    exact ⟨r.rule, List.mem_of_getElem? (getElem?_of_mem_activeRules hr), hplace⟩
  refine ⟨hdelivering.grows.mono hplaces, fun i entry path registered methods houtcome => ?_⟩
  rw [List.getElem?_map, Option.map_eq_some_iff] at houtcome
  obtain ⟨index, hindex, hlookup⟩ := houtcome
  have hi : i = index := by
    obtain ⟨hlt, hget⟩ := List.getElem?_eq_some_iff.1 hindex
    rwa [List.getElem_range] at hget
  subst hi
  have hmem : (i, .injected entry path registered methods) ∈
      (List.range (TargetGroup.all rules matched).length).flatMap fun j => (p.progress j).outcomes := by
    cases hfound : ((List.range (TargetGroup.all rules matched).length).flatMap fun j =>
        (p.progress j).outcomes).lookup i with
    | none =>
      rw [hfound] at hlookup
      cases hlookup
    | some outcome =>
      rw [hfound, Option.getD_some] at hlookup
      obtain ⟨front, behind, hsplit, -⟩ := List.lookup_eq_some_iff.1 hfound
      rw [hsplit, hlookup]
      exact List.mem_append_right _ List.mem_cons_self
  obtain ⟨j, hj, hmem⟩ := List.mem_flatMap.1 hmem
  rw [List.mem_range] at hj
  have hg := List.getElem?_eq_getElem hj
  generalize (TargetGroup.all rules matched)[j] = g at hg
  have htrack := hdelivering.onTrack j g hg
  cases hprogress : p.progress j with
  | finished outcomes =>
    rw [hprogress] at htrack hmem
    obtain ⟨hindices, hinjected⟩ := htrack
    obtain ⟨hentry, hpath, hheld, hcopy⟩ := hinjected _ hmem entry path registered methods rfl
    have hrule : i ∈ g.rules.map (·.index) := by
      rw [← hindices]
      exact List.mem_map.2 ⟨_, hmem, rfl⟩
    obtain ⟨r, hr, rfl⟩ := List.mem_map.1 hrule
    have hall := List.mem_of_getElem? hg
    rw [all_eq] at hall
    obtain ⟨target, -, rfl⟩ := List.mem_map.1 hall
    obtain ⟨hactive, htarget⟩ := List.mem_filter.1 hr
    have htarget : r.rule.targetClass = target := beq_iff_eq.1 htarget
    refine ⟨r.rule, getElem?_of_mem_activeRules hactive, ?_, ?_, ?_, hcopy⟩
    · rw [hentry, htarget]
      rfl
    · rw [hpath, hentry]
      rfl
    · obtain ⟨root, hroot, fs₀, hholds, hgrows⟩ := hheld
      exact ⟨root, hroot, fs₀, hholds, hgrows.mono hplaces⟩
  | _ =>
    rw [hprogress] at hmem
    cases hmem

end Registrar
