import Registrar.Proofs.Turns

/-!
# What a group does

* `Materialized.decode_eq_ok_iff` : the class of a copy;
* `TargetGroup.Rewrites`, `steps_of_injected`, `exists_of_injected` : where calls were put into a class, all went well,
  and the copy holds the changed class;
* `TargetGroup.map_fst_run` : each rule has an outcome;
* `TargetGroup.run_congr` : what a group does depends on its rules, and not on their positions among all rules.
-/

namespace Registrar

theorem Materialized.decode_eq_ok_iff {m : Materialized} {className : String} {file : ClassFile} :
    m.decode className = .ok file ↔ ClassFile.decode m.bytes = .ok file ∧ file.name = .ok className := by
  unfold Materialized.decode
  cases ClassFile.decode m.bytes with
  | error cause => simp
  | ok found =>
    dsimp only
    rw [Except.ok.injEq]
    constructor
    · intro h
      split at h
      · cases h
      · next name hname =>
        split at h
        · next heq =>
          obtain rfl := Except.ok.inj h
          exact ⟨rfl, heq ▸ hname⟩
        · cases h
    · rintro ⟨rfl, hname⟩
      simp [hname]

namespace TargetGroup

variable {g g' : TargetGroup} {inputs : Inputs} {work : String} {fs : FileSystem}

/-! ## Changed classes -/

theorem not_isInjected_skipAll (error : TargetError) {r : Nat × InjectionOutcome} (h : r ∈ g.skipAll error) :
    r.2.isInjected = false := by
  obtain ⟨rule, -, rfl⟩ := List.mem_map.1 h
  rfl

theorem not_isInjected_outcomes {m : Materialized} {error : TargetError} {results : GroupResults}
    {r : Nat × InjectionOutcome} (h : r ∈ outcomes m (some error) results) : r.2.isInjected = false := by
  obtain ⟨result, -, rfl⟩ := List.mem_map.1 h
  cases hresult : result.2 <;> simp only [outcome, InjectionOutcome.isInjected]

theorem not_isInjected_of_change {m : Materialized} {outs : List (Nat × InjectionOutcome)}
    (h : g.change m = .error outs) {r : Nat × InjectionOutcome} (hr : r ∈ outs) : r.2.isInjected = false := by
  unfold change at h
  cases hdecode : m.decode g.target with
  | error error =>
    rw [hdecode] at h
    cases h
    exact not_isInjected_skipAll _ hr
  | ok file =>
    simp only [hdecode] at h
    by_cases hany : anyApplied ((ClassDraft.of file).injectRules g.rules).2 = true
    · rw [if_pos hany] at h
      split at h
      · cases h
        exact not_isInjected_outcomes hr
      · cases h
    · rw [if_neg hany] at h
      cases h
      obtain ⟨result, hresult, rfl⟩ := List.mem_map.1 hr
      cases hcase : result.2 with
      | error error => rfl
      | ok injection =>
        refine absurd (List.any_eq_true.2 ⟨result, hresult, ?_⟩) hany
        rw [hcase]

/-- The bytes that a group writes over the copy of the class that it finds: the class with the calls of its rules. -/
def Rewrites (g : TargetGroup) (inputs : Inputs) (work : String) (fs : FileSystem) (data : List UInt8) : Prop :=
  ∃ root bytes results, inputs.locate? fs g.target = some root ∧
    root.readEntry fs (classEntryName g.target) = .ok bytes ∧ g.change (g.copyOf work root bytes) = .ok (data, results)

/-- A run in which all goes well. -/
theorem run_eq_of {root : Root} {bytes data : List UInt8} {results : GroupResults} {fs₁ fs₂ : FileSystem}
    (hlocate : inputs.locate? fs g.target = some root)
    (hread : root.readEntry fs (classEntryName g.target) = .ok bytes)
    (hcopy : FileSystem.writeBelow (g.copyPath work) bytes fs = .ok () fs₁)
    (hchange : g.change (g.copyOf work root bytes) = .ok (data, results))
    (hwrite : FileSystem.writeBelow (g.copyPath work) data fs₁ = .ok () fs₂) :
    g.run inputs work fs = (outcomes (g.copyOf work root bytes) none results, fs₂) := by
  rw [run_eq, hlocate]
  dsimp only
  rw [hread]
  dsimp only
  rw [hcopy]
  dsimp only
  rw [hchange]
  dsimp only
  rw [hwrite]

/-- Where calls were put into a class, all went well. -/
theorem steps_of_injected {r : Nat × InjectionOutcome} (h : r ∈ (g.run inputs work fs).1)
    (hinjected : r.2.isInjected = true) : ∃ root bytes data results fs₁ fs₂,
      inputs.locate? fs g.target = some root ∧ root.readEntry fs (classEntryName g.target) = .ok bytes ∧
      FileSystem.writeBelow (g.copyPath work) bytes fs = .ok () fs₁ ∧
      g.change (g.copyOf work root bytes) = .ok (data, results) ∧
      FileSystem.writeBelow (g.copyPath work) data fs₁ = .ok () fs₂ := by
  have hnot {outs : List (Nat × InjectionOutcome)} (hall : ∀ r ∈ outs, r.2.isInjected = false) : r ∉ outs := by
    intro hmem
    exact absurd hinjected (Bool.eq_false_iff.1 (hall r hmem))
  rw [run_eq] at h
  cases hlocate : inputs.locate? fs g.target with
  | none =>
    rw [hlocate] at h
    exact absurd h (hnot fun r => not_isInjected_skipAll _)
  | some root =>
    rw [hlocate] at h
    dsimp only at h
    cases hread : root.readEntry fs (classEntryName g.target) with
    | error cause =>
      rw [hread] at h
      exact absurd h (hnot fun r => not_isInjected_skipAll _)
    | ok bytes =>
      rw [hread] at h
      dsimp only at h
      cases hcopy : FileSystem.writeBelow (g.copyPath work) bytes fs with
      | error cause fs =>
        rw [hcopy] at h
        exact absurd h (hnot fun r => not_isInjected_skipAll _)
      | ok u fs₁ =>
        rw [hcopy] at h
        dsimp only at h
        cases hchange : g.change (g.copyOf work root bytes) with
        | error outs =>
          rw [hchange] at h
          exact absurd h (hnot fun r => not_isInjected_of_change hchange)
        | ok changed =>
          obtain ⟨data, results⟩ := changed
          rw [hchange] at h
          dsimp only at h
          cases hwrite : FileSystem.writeBelow (g.copyPath work) data fs₁ with
          | error cause fs =>
            rw [hwrite] at h
            exact absurd h (hnot fun r => not_isInjected_outcomes)
          | ok v fs₂ => exact ⟨root, bytes, data, results, fs₁, fs₂, rfl, hread, hcopy, hchange, hwrite⟩

/-- Where calls were put into a class, the copy holds the changed class. -/
theorem exists_of_injected {index registered methods : Nat} {entry path : String}
    (h : (index, .injected entry path registered methods) ∈ (g.run inputs work fs).1) : path = g.copyPath work ∧
      ∃ data, g.Rewrites inputs work fs data ∧ (g.run inputs work fs).2.data? path = some data := by
  obtain ⟨root, bytes, data, results, fs₁, fs₂, hlocate, hread, hcopy, hchange, hwrite⟩ := steps_of_injected h rfl
  have hrun : g.run inputs work fs = _ := run_eq_of hlocate hread hcopy hchange hwrite
  rw [hrun] at h ⊢
  obtain ⟨result, -, heq⟩ := List.mem_map.1 h
  obtain ⟨-, houtcome⟩ := Prod.mk.inj heq
  obtain rfl : path = g.copyPath work := by
    cases hresult : result.2 <;> rw [hresult] at houtcome <;> cases houtcome
    rfl
  exact ⟨rfl, data, ⟨root, bytes, results, hlocate, hread, hchange⟩, FileSystem.data?_of_writeBelow hwrite⟩

/-! ## Positions of rules -/

/-- A rule of a group without its position. -/
def content (r : GroupRule) : Rule × NameSet := (r.rule, r.matched)

theorem map_fst_injectRules (d : ClassDraft) (gs : List GroupRule) :
    (d.injectRules gs).2.map (·.1) = gs.map (·.index) := by
  induction gs generalizing d with
  | nil => rfl
  | cons r gs ih =>
    rw [ClassDraft.injectRules]
    cases d.inject r.rule r.matched with
    | ok changed => exact congrArg (r.index :: ·) (ih changed.1)
    | error error => exact congrArg (r.index :: ·) (ih d)

theorem length_injectRules (d : ClassDraft) (gs : List GroupRule) : (d.injectRules gs).2.length = gs.length := by
  simpa using congrArg List.length (map_fst_injectRules d gs)

/-- Each rule has an outcome. -/
theorem map_fst_run (g : TargetGroup) (inputs : Inputs) (work : String) (fs : FileSystem) :
    (g.run inputs work fs).1.map (·.1) = g.rules.map (·.index) := by
  have hskip (error : TargetError) : (g.skipAll error).map (·.1) = g.rules.map (·.index) := by
    rw [skipAll, List.map_map]
    rfl
  have houtcomes (m : Materialized) (failure : Option TargetError) (file : ClassFile) :
      (outcomes m failure ((ClassDraft.of file).injectRules g.rules).2).map (·.1) = g.rules.map (·.index) := by
    rw [outcomes, List.map_map, ← map_fst_injectRules (ClassDraft.of file)]
    rfl
  unfold run
  split
  · exact hskip _
  · split
    · exact hskip _
    · next file _ =>
      dsimp only
      split
      · exact houtcomes _ _ file
      · exact houtcomes _ _ file

theorem injectRules_congr (d : ClassDraft) {gs gs' : List GroupRule} (h : gs.map content = gs'.map content) :
    (d.injectRules gs).1 = (d.injectRules gs').1 ∧
      (d.injectRules gs).2.map (·.2) = (d.injectRules gs').2.map (·.2) := by
  induction gs generalizing d gs' with
  | nil =>
    rw [List.map_eq_nil_iff.1 h.symm]
    exact ⟨rfl, rfl⟩
  | cons r gs ih =>
    obtain ⟨r', gs', rfl, hr, hgs⟩ := List.map_eq_cons_iff.1 h.symm
    obtain ⟨hrule, hmatched⟩ := Prod.mk.inj hr
    rw [ClassDraft.injectRules, ClassDraft.injectRules, hrule, hmatched]
    cases d.inject r.rule r.matched with
    | ok changed =>
      obtain ⟨hdraft, hresults⟩ := ih changed.1 hgs.symm
      exact ⟨hdraft, congrArg (Except.ok changed.2 :: ·) hresults⟩
    | error error =>
      obtain ⟨hdraft, hresults⟩ := ih d hgs.symm
      exact ⟨hdraft, congrArg (Except.error error :: ·) hresults⟩

theorem map_snd_skipAll (g : TargetGroup) (error : TargetError) :
    (g.skipAll error).map (·.2) = (g.rules.map content).map fun _ => .skipped error := by
  rw [skipAll, List.map_map, List.map_map]
  rfl

theorem map_snd_outcomes (m : Materialized) (failure : Option TargetError) (results : GroupResults) :
    (outcomes m failure results).map (·.2) = (results.map (·.2)).map (outcome m failure) := by
  rw [outcomes, List.map_map, List.map_map]
  rfl

theorem anyApplied_eq (results : GroupResults) : anyApplied results = results.any (·.2.isOk) := by
  unfold anyApplied
  congr 1
  funext result
  cases result.2 <;> rfl

theorem anyApplied_congr {results results' : GroupResults} (h : results.map (·.2) = results'.map (·.2)) :
    anyApplied results = anyApplied results' := by
  have heach (results : GroupResults) : anyApplied results = (results.map (·.2)).any Except.isOk := by
    rw [anyApplied_eq, List.any_map]
    rfl
  rw [heach, heach, h]

/-- What a group does depends on its rules, and not on their positions. -/
theorem run_congr (inputs : Inputs) (work : String) (fs : FileSystem) (htarget : g.target = g'.target)
    (hrules : g.rules.map content = g'.rules.map content) :
    (g.run inputs work fs).1.map (·.2) = (g'.run inputs work fs).1.map (·.2) ∧
      (g.run inputs work fs).2 = (g'.run inputs work fs).2 := by
  obtain ⟨target, rules⟩ := g
  obtain ⟨target', rules'⟩ := g'
  obtain rfl : target = target' := htarget
  change rules.map content = rules'.map content at hrules
  have hskip (error : TargetError) :
      (skipAll ⟨target, rules⟩ error).map (·.2) = (skipAll ⟨target, rules'⟩ error).map (·.2) := by
    rw [map_snd_skipAll, map_snd_skipAll, hrules]
  unfold run
  cases materialize inputs target work fs with
  | error error fs => exact ⟨hskip error, rfl⟩
  | ok m fs =>
    dsimp only
    cases m.decode target with
    | error error => exact ⟨hskip error, rfl⟩
    | ok file =>
      dsimp only
      obtain ⟨hdraft, hresults⟩ := injectRules_congr (ClassDraft.of file) hrules
      have houtcomes (failure : Option TargetError) :
          (outcomes m failure ((ClassDraft.of file).injectRules rules).2).map (·.2) =
            (outcomes m failure ((ClassDraft.of file).injectRules rules').2).map (·.2) := by
        rw [map_snd_outcomes, map_snd_outcomes, hresults]
      rw [anyApplied_congr hresults]
      split
      · rw [hdraft]
        exact ⟨houtcomes _, rfl⟩
      · exact ⟨houtcomes _, rfl⟩

end TargetGroup

end Registrar
