import Registrar.Proofs.Linking

/-!
# Rules that fail

* `ClassDraft.applied` : those of some rules that can be applied to a class, one after the other. `injectRules_applied` :
  they do to it what all the rules do;
* `TargetGroup.kept` : the rules of a group that outcomes say were applied. `change_kept` : they give the same class;
* `TargetGroup.LeavesNoTrace` : rules that fail leave their outcomes, and nothing else. `leaves_no_trace` : that is so
  if any rule is applied.
-/

namespace Registrar

open TargetGroup (outcome outcomes)

/-! ## Rules that can be applied -/

namespace ClassDraft

/-- The rules that can be applied to a class, one after the other. -/
def applied (d : ClassDraft) : List GroupRule → List GroupRule
  | [] => []
  | r :: rest =>
    match d.inject r.rule r.matched with
    | .ok (d, _) => r :: d.applied rest
    | .error _ => d.applied rest

/-- They leave the class, and the code at its entries, as all the rules leave it. -/
theorem injectRules_applied (d : ClassDraft) (rules : List GroupRule) :
    d.injectRules (d.applied rules) = ((d.injectRules rules).1, (d.injectRules rules).2.filter (·.2.isOk)) := by
  induction rules generalizing d with
  | nil => rfl
  | cons r rules ih =>
    rw [applied, injectRules]
    cases hinject : d.inject r.rule r.matched with
    | ok changed =>
      obtain ⟨d', injection⟩ := changed
      dsimp only
      rw [injectRules, hinject]
      dsimp only
      rw [ih d', List.filter_cons_of_pos rfl]
    | error error =>
      dsimp only
      rw [ih d, List.filter_cons_of_neg (by exact Bool.false_ne_true)]

end ClassDraft

/-- The rules of which the outcome is that their calls are in the class. -/
def keptRules (rules : List GroupRule) (outs : List (Nat × InjectionOutcome)) : List GroupRule :=
  ((rules.zip outs).filter (·.2.2.isInjected)).map (·.1)

/-- If the class is written, then the rules that can be applied are kept. -/
theorem keptRules_outcomes (m : Materialized) (d : ClassDraft) (rules : List GroupRule) :
    keptRules rules (outcomes m none (d.injectRules rules).2) = d.applied rules := by
  induction rules generalizing d with
  | nil => rfl
  | cons r rules ih =>
    rw [ClassDraft.injectRules, ClassDraft.applied]
    cases d.inject r.rule r.matched with
    | ok changed => exact congrArg (r :: ·) (ih changed.1)
    | error error => exact ih d

theorem isInjected_outcome (m : Materialized) (result : Except TargetError RuleInjection) :
    (outcome m none result).isInjected = result.isOk := by
  cases result <;> rfl

theorem filter_outcomes (m : Materialized) (results : GroupResults) :
    (outcomes m none results).filter (·.2.isInjected) = outcomes m none (results.filter (·.2.isOk)) := by
  rw [outcomes, outcomes, List.filter_map]
  congr 1
  apply List.filter_congr
  intro result _
  exact isInjected_outcome m result.2

namespace TargetGroup

variable {g : TargetGroup} {inputs : Inputs} {work : String} {fs : FileSystem} {m : Materialized} {file : ClassFile}

/-! ## Groups without the rules that fail -/

/-- The group of the rules that are kept. -/
def kept (g : TargetGroup) (outs : List (Nat × InjectionOutcome)) : TargetGroup := ⟨g.target, keptRules g.rules outs⟩

theorem anyApplied_filter (results : GroupResults) : anyApplied (results.filter (·.2.isOk)) = anyApplied results := by
  rw [anyApplied_eq, anyApplied_eq, List.any_filter]
  congr 1
  funext result
  exact Bool.and_self _

/-- The rules that can be applied give the class that all the rules give. -/
theorem change_kept {data : List UInt8} {results : GroupResults} (h : g.change m = .ok (data, results)) :
    (g.kept (outcomes m none results)).change m = .ok (data, results.filter (·.2.isOk)) := by
  obtain ⟨file, hdecode, -, rfl⟩ := change_ok h
  unfold change at h ⊢
  rw [kept, keptRules_outcomes]
  rw [hdecode] at h ⊢
  dsimp only at h ⊢
  rw [ClassDraft.injectRules_applied]
  dsimp only
  rw [anyApplied_filter]
  split at h
  · next hany =>
    rw [if_pos hany]
    split at h
    · cases h
    · cases h
      rfl
  · cases h

/-- The outcomes of rules for a class that is copied. -/
theorem exists_outcomes {fs₁ : FileSystem} (hcopy : materialize inputs g.target work fs = .ok m fs₁)
    (hdecode : m.decode g.target = .ok file) :
    ∃ failure, (g.run inputs work fs).1 = outcomes m failure ((ClassDraft.of file).injectRules g.rules).2 := by
  unfold run
  rw [hcopy]
  dsimp only
  rw [hdecode]
  dsimp only
  split <;> exact ⟨_, rfl⟩

/-- A rule that fails has the same outcome as the last one after those that can be applied. -/
theorem getLast?_run_applied {fs₁ : FileSystem} (hcopy : materialize inputs g.target work fs = .ok m fs₁)
    (hdecode : m.decode g.target = .ok file) {before : List GroupRule} {r : GroupRule} {error : TargetError}
    (herror : ((ClassDraft.of file).injectRules before).1.inject r.rule r.matched = .error error) :
    (run ⟨g.target, (ClassDraft.of file).applied before ++ [r]⟩ inputs work fs).1.getLast? =
      some (r.index, .skipped error) := by
  obtain ⟨failure, houtcomes⟩ :=
    exists_outcomes (g := ⟨g.target, (ClassDraft.of file).applied before ++ [r]⟩) hcopy hdecode
  rw [houtcomes, ClassDraft.injectRules_append, ClassDraft.injectRules_applied]
  dsimp only
  rw [ClassDraft.injectRules, herror, outcomes, List.map_append]
  exact List.getLast?_concat

/-- A rule with the outcome that it fails was not applied after the rules before it. -/
theorem error_of_not_isInjected {before later : List GroupRule} {r : GroupRule}
    {outs outs' : List (Nat × InjectionOutcome)} {o : Nat × InjectionOutcome} {d : ClassDraft}
    (h : outcomes m none (d.injectRules (before ++ r :: later)).2 = outs ++ o :: outs')
    (hlength : outs.length = before.length) (hfails : o.2.isInjected = false) :
    outs = outcomes m none (d.injectRules before).2 ∧
      ∃ error, (d.injectRules before).1.inject r.rule r.matched = .error error ∧ o = (r.index, .skipped error) := by
  have hbefore : (outcomes m none (d.injectRules before).2).length = outs.length := by
    rw [outcomes, List.length_map, length_injectRules, hlength]
  rw [ClassDraft.injectRules_append, outcomes, List.map_append] at h
  obtain ⟨houts, hrest⟩ := List.append_inj h hbefore
  refine ⟨houts.symm, ?_⟩
  rw [ClassDraft.injectRules] at hrest
  cases hinject : (d.injectRules before).1.inject r.rule r.matched with
  | ok changed =>
    rw [hinject] at hrest
    rw [← (List.cons.inj hrest).1] at hfails
    cases hfails
  | error error =>
    rw [hinject] at hrest
    exact ⟨error, rfl, (List.cons.inj hrest).1.symm⟩

/-- Rules that fail leave nothing but their outcomes. Each rule has one. The rules that are applied write the same bytes
without the others, from the same class with the same code at the entries of its methods; they have the same outcomes,
and all files are the same. A rule that fails does so, in the same way, as the only one after those that were applied
before it. -/
structure LeavesNoTrace (g : TargetGroup) (inputs : Inputs) (work : String) (fs : FileSystem)
    (outs : List (Nat × InjectionOutcome)) : Prop where
  indices : outs.map (·.1) = g.rules.map (·.index)
  rewrites : ∃ data, g.Rewrites inputs work fs data ∧ (g.kept outs).Rewrites inputs work fs data
  draft : ∀ file, g.Reads inputs fs file →
    ((ClassDraft.of file).injectRules (g.kept outs).rules).1 = ((ClassDraft.of file).injectRules g.rules).1
  run : (g.kept outs).run inputs work fs = (outs.filter (·.2.isInjected), (g.run inputs work fs).2)
  failed : ∀ before r later outs₁ o outs₂, g.rules = before ++ r :: later → outs = outs₁ ++ o :: outs₂ →
    outs₁.length = before.length → o.2.isInjected = false →
      (TargetGroup.run ⟨g.target, keptRules before outs₁ ++ [r]⟩ inputs work fs).1.getLast? = some o

/-- A class with two methods `m`, of which only the first has a body. -/
def halfFile : ClassFile :=
  { registrar "a" with
    pool := ⟨(registrar "a").pool.entries ++ #[.ofText "m", .ofText "()V", .ofText codeName]⟩
    methods := [⟨.static, 5, 6, []⟩, ⟨.static, 7, 8, [⟨9, [0, 0, 0, 0, 0, 0, 0, 1, 0xb1, 0, 0, 0, 0]⟩]⟩,
      ⟨.static, 7, 6, []⟩] }

/-- The bytes of that class. -/
def halfBytes : List UInt8 :=
  match halfFile.encode with
  | .ok bytes => bytes
  | .error _ => []

/-- An archive with that class. -/
def halfInput : FileSystem where
  root := .directory .full [("in.jar", .file .full (.ofArchive [⟨"a.class", .bytes halfBytes⟩]))]
  workingDirectory := []

/-- Three rules for that class. The second one fails once it has put its calls into the first method `m`. -/
def halfGroup : TargetGroup where
  target := "a"
  rules := [⟨0, { registryRule with targetClass := "a" }, .ofList ["B"]⟩,
    ⟨1, { registryRule with targetClass := "a", targetMethod := "m" }, .ofList ["B"]⟩,
    ⟨2, { registryRule with targetClass := "a" }, .ofList ["C", "D"]⟩]

/-- **Rules that fail.** If any rule of a group is applied, and its class is written, then the rules that fail leave no
trace. -/
theorem leaves_no_trace (g : TargetGroup) (inputs : Inputs) (work : String) (fs : FileSystem)
    (h : ∃ o ∈ (g.run inputs work fs).1, o.2.isInjected = true) :
    g.LeavesNoTrace inputs work fs (g.run inputs work fs).1 := by
  obtain ⟨o, hmem, hinjected⟩ := h
  obtain ⟨root, bytes, data, results, fs₁, fs₂, hlocate, hread, hcopy, hchange, hwrite⟩ :=
    steps_of_injected hmem hinjected
  obtain ⟨file, hdecode, -, rfl⟩ := change_ok hchange
  have hkept := change_kept hchange
  have hindices := g.map_fst_run inputs work fs
  have hrun := run_eq_of hlocate hread hcopy hchange hwrite
  rw [hrun] at hindices ⊢
  refine ⟨hindices, ⟨data, ⟨root, bytes, _, hlocate, hread, hchange⟩, ⟨root, bytes, _, hlocate, hread, hkept⟩⟩, ?_,
    ?_, ?_⟩
  · intro file' hfile'
    obtain ⟨root', bytes', hlocate', hread', hfile', -⟩ := hfile'
    obtain rfl : root = root' := Option.some.inj (hlocate.symm.trans hlocate')
    obtain rfl : bytes = bytes' := Except.ok.inj (hread.symm.trans hread')
    obtain rfl : file = file' := Except.ok.inj ((Materialized.decode_eq_ok_iff.1 hdecode).1.symm.trans hfile')
    rw [kept, keptRules_outcomes, ClassDraft.injectRules_applied]
  · rw [hrun, filter_outcomes]
    exact run_eq_of hlocate hread hcopy hkept hwrite
  · intro before r later outs₁ o outs₂ hrules houts hlength hfails
    rw [hrules] at houts
    obtain ⟨rfl, error, herror, rfl⟩ := error_of_not_isInjected houts hlength hfails
    have hmaterialize : materialize inputs g.target work fs = .ok (g.copyOf work root bytes) fs₁ := by
      rw [materialize_eq, hlocate]
      dsimp only
      rw [hread]
      dsimp only
      rw [hcopy]
    rw [keptRules_outcomes]
    exact getLast?_run_applied hmaterialize hdecode herror

theorem leaves_no_trace_half :
    (halfGroup.run ⟨[], ["in.jar"]⟩ "w" halfInput).1 = [(0, .injected "a.class" "w/classes/a.class" 1 1),
        (1, .skipped (.injection "a" (.noCode "m"))), (2, .injected "a.class" "w/classes/a.class" 2 1)] ∧
      halfGroup.LeavesNoTrace ⟨[], ["in.jar"]⟩ "w" halfInput (halfGroup.run ⟨[], ["in.jar"]⟩ "w" halfInput).1 := by
  have houtcomes : (halfGroup.run ⟨[], ["in.jar"]⟩ "w" halfInput).1 =
      [(0, .injected "a.class" "w/classes/a.class" 1 1), (1, .skipped (.injection "a" (.noCode "m"))),
        (2, .injected "a.class" "w/classes/a.class" 2 1)] := by decide +kernel
  have hany : ∃ o ∈ (halfGroup.run ⟨[], ["in.jar"]⟩ "w" halfInput).1, o.2.isInjected = true := by
    rw [houtcomes]
    exact ⟨_, List.mem_cons_self, rfl⟩
  exact ⟨houtcomes, leaves_no_trace halfGroup ⟨[], ["in.jar"]⟩ "w" halfInput hany⟩

end TargetGroup

end Registrar
