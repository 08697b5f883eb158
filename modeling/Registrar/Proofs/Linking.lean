import Registrar.Proofs.Isolation
import Registrar.Proofs.Weaving

/-!
# Calls of register methods link

* `ClassFile.Links` : a call refers to the one method of the class that has the name and the descriptor;
* `ClassFile.exists_declared_of_choose` : no other method has the descriptor of the one that a rule chooses;
* `GroupRule.Linked`, `linked_of_registers` : what a rule puts into a method;
* `GroupRule.Disagrees`, `exists_error_of_disagrees` : a rule that would call a static method from an instance method,
  or the other way round, is not applied;
* `TargetGroup.links_run` : the calls that a group puts into its class link, and such a rule does nothing.
-/

namespace Registrar

/-! ## Calls that link -/

/-- The method to which an operand refers. -/
def Operand.method? : Operand → Option MethodReference
  | .ofMethod method => some method
  | .ofInterfaceMethod method _ => some method
  | .none => Option.none
  | .ofClass _ => Option.none

namespace ClassFile

/-- The methods of a class that have a name and a descriptor. -/
def declared (c : ClassFile) (name descriptor : String) : List Member :=
  c.methods.filter fun m => c.memberName m = .ok name ∧ c.memberDescriptor m = .ok descriptor

/-- The instruction calls the method `m` of the class itself. No other method of the class has the name and the
descriptor. -/
structure Links (c : ClassFile) (s : SymbolicInstruction) (method : MethodReference) (m : Member) : Prop where
  owner : c.name = .ok method.owner
  isInterface : method.isInterface = c.isInterface
  unique : c.declared method.name method.descriptor = [m]
  parameter : ∃ descriptor parameter, MethodDescriptor.parse method.descriptor = .ok descriptor ∧
    descriptor.parameters = [.object parameter]
  call : s =
    if m.isStatic then ⟨Opcode.invokeStatic, .ofMethod method⟩
    else if c.isInterface then ⟨Opcode.invokeInterface, .ofInterfaceMethod method 2⟩
    else ⟨Opcode.invokeVirtual, .ofMethod method⟩

variable {c : ClassFile} {name : String} {candidates : List RegisterCandidate}

theorem exists_name_of_candidates (h : c.candidates name = .ok candidates) {m : Member} (hm : m ∈ c.methods) :
    ∃ text, c.memberName m = .ok text := by
  simp only [ClassFile.candidates, Except.map_eq_ok_iff, Except.mapM_eq_ok_iff] at h
  obtain ⟨found, hfound, -⟩ := h
  obtain ⟨x, -, hx⟩ := hfound.exists_of_mem hm
  simp only [candidate?, Except.bind_eq_ok_iff, Except.mapError_eq_ok_iff] at hx
  obtain ⟨text, htext, -⟩ := hx
  exact ⟨text, htext⟩

/-- The methods that have the descriptor of a candidate are candidates, too. -/
theorem forall₂_declared (h : c.candidates name = .ok candidates) {chosen : RegisterCandidate}
    (hchosen : chosen ∈ candidates) :
    List.Forall₂ (fun m candidate => m.isStatic = candidate.isStatic) (c.declared name chosen.descriptor)
      (candidates.filter (·.descriptor == chosen.descriptor)) := by
  obtain ⟨_, -, -, -, -, hsignature⟩ := c.exists_of_candidates h hchosen
  simp only [ClassFile.candidates, Except.map_eq_ok_iff, Except.mapM_eq_ok_iff] at h
  obtain ⟨found, hfound, rfl⟩ := h
  clear hchosen
  unfold declared
  generalize c.methods = ms at hfound
  induction hfound with
  | nil => exact .nil
  | @cons m x ms found hx _ ih =>
    cases x with
    | none =>
      have hother : ¬ (c.memberName m = .ok name ∧ c.memberDescriptor m = .ok chosen.descriptor) := by
        rintro ⟨hname, hdescriptor⟩
        have hsome : c.candidate? name m = .ok (some ⟨chosen.descriptor, chosen.parameter, m.isStatic,
            chosen.returnSlots⟩) := candidate?_eq_some_iff.2 ⟨hname, hdescriptor, rfl, hsignature⟩
        rw [hx] at hsome
        cases hsome
      rw [List.filter_cons_of_neg (by simpa using hother)]
      exact ih
    | some candidate =>
      obtain ⟨hname, hdescriptor, hstatic, -⟩ := candidate?_eq_some_iff.1 hx
      show List.Forall₂ _ _ ((candidate :: found.filterMap id).filter _)
      by_cases hsame : candidate.descriptor = chosen.descriptor
      · rw [List.filter_cons_of_pos (by simp [hname, hdescriptor, hsame]), List.filter_cons_of_pos (by simp [hsame])]
        exact .cons hstatic ih
      · rw [List.filter_cons_of_neg (by simp [hdescriptor, hsame]), List.filter_cons_of_neg (by simp [hsame])]
        exact ih

/-- No other candidate has the descriptor of the one that is chosen: it would take the same class, and the choice would
be ambiguous. -/
theorem filter_descriptor_of_choose {r : Rule} {className : String} {chosen : RegisterCandidate}
    (h : c.candidates name = .ok candidates) (hchoose : r.choose className candidates = .ok chosen) :
    candidates.filter (·.descriptor == chosen.descriptor) = [chosen] := by
  obtain ⟨accepts, hfilter⟩ := Rule.exists_filter_of_choose hchoose
  have hchosen : chosen ∈ candidates.filter (accepts ·.parameter) := by
    rw [hfilter]
    exact List.mem_singleton_self _
  obtain ⟨hmem, haccepts⟩ := List.mem_filter.1 hchosen
  have hparameter (candidate : RegisterCandidate) (hcandidate : candidate ∈ candidates)
      (hsame : candidate.descriptor = chosen.descriptor) : candidate.parameter = chosen.parameter := by
    obtain ⟨_, -, -, -, -, hsignature⟩ := c.exists_of_candidates h hcandidate
    obtain ⟨_, -, -, -, -, hsignature'⟩ := c.exists_of_candidates h hmem
    rw [hsame, hsignature', Except.ok.injEq, Option.some.injEq, RegisterSignature.mk.injEq] at hsignature
    exact hsignature.1.symm
  calc candidates.filter (·.descriptor == chosen.descriptor)
      = (candidates.filter (accepts ·.parameter)).filter (·.descriptor == chosen.descriptor) := by
        rw [List.filter_filter]
        apply List.filter_congr
        intro candidate hcandidate
        by_cases hsame : candidate.descriptor = chosen.descriptor
        · simp [hsame, hparameter candidate hcandidate hsame, haccepts]
        · simp [hsame]
    _ = [chosen] := by simp [hfilter]

/-- The method that a rule chooses for a class is the only one with its name and its descriptor. -/
theorem exists_declared_of_choose {r : Rule} {className : String} {chosen : RegisterCandidate}
    (h : c.candidates name = .ok candidates) (hchoose : r.choose className candidates = .ok chosen) :
    ∃ m, c.declared name chosen.descriptor = [m] ∧ m.isStatic = chosen.isStatic ∧
      ∃ descriptor parameter, MethodDescriptor.parse chosen.descriptor = .ok descriptor ∧
        descriptor.parameters = [.object parameter] := by
  have hmem := Rule.mem_of_choose hchoose
  have hdeclared := forall₂_declared h hmem
  rw [filter_descriptor_of_choose h hchoose] at hdeclared
  obtain ⟨m, _, hstatic, hnil, hm⟩ := List.forall₂_cons_right_iff.1 hdeclared
  obtain rfl := List.forall₂_nil_right_iff.1 hnil
  obtain ⟨_, -, -, -, -, hsignature⟩ := c.exists_of_candidates h hmem
  obtain ⟨descriptor, hparse, hparameters, -⟩ := RegisterSignature.exists_of_of? hsignature
  exact ⟨m, hm, hstatic, descriptor, _, hparse, hparameters⟩

end ClassFile

/-! ## What a rule puts into a method -/

/-- The instruction is one that a rule puts into methods that are static or not. If it calls a method, then that is the
constructor of a class that the rule registers, or else a register method, which is static just if the others are, and
the call links. -/
def GroupRule.Linked (g : GroupRule) (c : ClassFile) (isStatic : Bool) (i : Instruction) : Prop :=
  ∃ s, i.symbolic? c.pool = some s ∧ ∀ method, s.operand.method? = some method →
    (s.opcode = Opcode.invokeSpecial ∧
      ∃ className ∈ g.matched, method = ⟨className, ClassFile.constructor, "()V", false⟩) ∨
    (method.name = g.rule.registerMethod ∧ ∃ m, c.Links s method m ∧ m.isStatic = isStatic)

theorem CallContext.call_of_mem_registration {context : CallContext} {className descriptor : String}
    {result : FieldType} {s : SymbolicInstruction} {method : MethodReference}
    (hs : s ∈ context.registration className descriptor result)
    (hmethod : s.operand.method? = some method) :
    (s.opcode = Opcode.invokeSpecial ∧ method = ⟨className, ClassFile.constructor, "()V", false⟩) ∨
      s = context.invocation descriptor := by
  have hreceiver : s ∉ (if context.isStatic then [] else [(⟨Opcode.aload0, .none⟩ : SymbolicInstruction)]) := by
    intro hmem
    split at hmem
    · cases hmem
    · obtain rfl := List.mem_singleton.1 hmem
      cases hmethod
  have hdiscard : s ∉ result.discard := by
    intro hmem
    unfold FieldType.discard at hmem
    split at hmem
    · cases hmem
    all_goals
      obtain rfl := List.mem_singleton.1 hmem
      cases hmethod
  simp only [registration, List.mem_append, List.mem_cons, List.not_mem_nil, or_false, hreceiver, hdiscard,
    false_or] at hs
  rcases hs with rfl | rfl | rfl | rfl
  · cases hmethod
  · cases hmethod
  · exact .inl ⟨rfl, (Option.some.inj hmethod).symm⟩
  · exact .inr rfl

namespace ClassDraft

variable {d : ClassDraft} {g : GroupRule}

/-- The calls of a rule that agrees with a method link. -/
theorem linked_of_registers {isStatic : Bool} {steps : List RegistrationStep} {i : Instruction}
    (hsize : d.file.pool.entries.size ≤ ConstantPool.maxEntries) (hname : d.file.name = .ok g.rule.targetClass)
    (hagrees : g.rule.Agrees g.matched d.file isStatic) (h : d.Registers isStatic g steps)
    (hi : i ∈ steps.map RegistrationStep.instruction) : g.Linked d.file isStatic i := by
  obtain ⟨candidates, calls, hcandidates, hcalls, hsteps⟩ := h
  obtain ⟨parts, hparts, hresolved⟩ := Rule.registersAll_of_mapM hcandidates hcalls hsteps hsize .refl
  have hmem : i.symbolic? d.file.pool ∈ parts.flatten.map some := by
    rw [← hresolved]
    exact List.mem_map_of_mem hi
  obtain ⟨s, hs, hsymbolic⟩ := List.mem_map.1 hmem
  obtain ⟨part, hpart, hs⟩ := List.mem_flatten.1 hs
  obtain ⟨className, hclass, chosen, descriptor, hchoose, -, rfl⟩ := hparts.flip.exists_of_mem hpart
  refine ⟨s, hsymbolic.symm, fun method hmethod => ?_⟩
  rcases CallContext.call_of_mem_registration hs hmethod with ⟨hopcode, hconstructor⟩ | hinvocation
  · exact .inl ⟨hopcode, className, hclass, hconstructor⟩
  · right
    obtain ⟨m, hunique, hchosen, hparameter⟩ := ClassFile.exists_declared_of_choose hcandidates hchoose
    have hstatic : m.isStatic = isStatic :=
      hchosen.trans (hagrees candidates className chosen hcandidates hclass hchoose)
    let reference : MethodReference :=
      ⟨g.rule.targetClass, g.rule.registerMethod, chosen.descriptor, d.file.isInterface⟩
    have hcall : s =
        if m.isStatic then ⟨Opcode.invokeStatic, .ofMethod reference⟩
        else if d.file.isInterface then ⟨Opcode.invokeInterface, .ofInterfaceMethod reference 2⟩
        else ⟨Opcode.invokeVirtual, .ofMethod reference⟩ := by
      rw [hstatic]
      exact hinvocation
    have hreference : method = reference := by
      rw [hcall] at hmethod
      split_ifs at hmethod <;> exact (Option.some.inj hmethod).symm
    rw [hreference]
    exact ⟨rfl, m, ⟨hname, rfl, hunique, hparameter, hcall⟩, hstatic⟩

/-! ## Rules that are not applied -/

theorem injectRules_append (d : ClassDraft) (gs gs' : List GroupRule) :
    d.injectRules (gs ++ gs') = (((d.injectRules gs).1.injectRules gs').1,
      (d.injectRules gs).2 ++ ((d.injectRules gs).1.injectRules gs').2) := by
  induction gs generalizing d with
  | nil => rfl
  | cons g gs ih =>
    rw [List.cons_append, injectRules, injectRules]
    split
    · next d' injection _ =>
      dsimp only
      rw [ih d']
      rfl
    · dsimp only
      rw [ih d]
      rfl

/-- Rules leave the name of a class. -/
theorem thisClass_injectRules (d : ClassDraft) (gs : List GroupRule) :
    (d.injectRules gs).1.file.thisClass = d.file.thisClass := by
  induction gs generalizing d with
  | nil => rfl
  | cons g gs ih =>
    rw [injectRules]
    split
    · next d' injection hinject =>
      obtain ⟨pool, methods, hfile⟩ := exists_file_of_inject hinject
      refine (ih d').trans ?_
      rw [hfile]
    · exact ih d

end ClassDraft

/-- The method that a rule chooses for one of its classes is static and a method with the name given by the rule is not,
or the other way round. A missing static initializer counts as static. -/
def GroupRule.Disagrees (g : GroupRule) (c : ClassFile) : Prop :=
  ∃ candidates className chosen, c.candidates g.rule.registerMethod = .ok candidates ∧ className ∈ g.matched ∧
    g.rule.choose className candidates = .ok chosen ∧
    ((∃ m ∈ c.methods, c.memberName m = .ok g.rule.targetMethod ∧ m.isStatic ≠ chosen.isStatic) ∨
      ((∀ m ∈ c.methods, c.memberName m ≠ .ok g.rule.targetMethod) ∧
        g.rule.targetMethod = ClassFile.staticInitializer ∧ chosen.isStatic = false))

/-- A rule that disagrees with a class is not applied to it, also after other rules. -/
theorem ClassDraft.exists_error_of_disagrees {c : ClassFile} {d : ClassDraft} {g : GroupRule}
    {added : String → Bool → Instruction → Prop} (haligned : d.Aligned) (hgrows : c.Grows d.file)
    (hweaves : c.WeavesInto added d.file) (h : g.Disagrees c) : ∃ error, d.inject g.rule g.matched = .error error := by
  obtain ⟨candidates, className, chosen, hcandidates, hmem, hchoose, hdisagrees⟩ := h
  cases hinject : d.inject g.rule g.matched with
  | error error => exact ⟨error, rfl⟩
  | ok changed =>
    exfalso
    obtain ⟨d', injection⟩ := changed
    obtain ⟨-, hnamed, hmissing⟩ := agrees_of_inject haligned hinject
    have hagrees {isStatic : Bool} (h : g.rule.Agrees g.matched d.file isStatic) : chosen.isStatic = isStatic :=
      h candidates className chosen (hgrows.candidates hcandidates) hmem hchoose
    obtain ⟨ms, new, hms, hforall, hnew⟩ := hweaves.methods
    rcases hdisagrees with ⟨m, hm, hname, hne⟩ | ⟨hnone, hinitializer, hinstance⟩
    · obtain ⟨m', hm', hinto⟩ := hforall.exists_of_mem hm
      have hname' : d.file.memberName m' = .ok g.rule.targetMethod :=
        (hinto.declaration.memberName d.file).trans (hgrows.pool.utf8 hname)
      have hstatic := hagrees (hnamed m' (hms ▸ List.mem_append_left _ hm') hname')
      exact hne (hinto.declaration.isStatic.symm.trans hstatic.symm)
    · have htrue : chosen.isStatic = true := by
        by_cases hdeclared : ∃ m ∈ d.file.methods, d.file.memberName m = .ok g.rule.targetMethod
        · obtain ⟨m', hm', hname'⟩ := hdeclared
          have hstatic := hagrees (hnamed m' hm' hname')
          rw [hms] at hm'
          rcases List.mem_append.1 hm' with hm' | hm'
          · obtain ⟨m, hm, hinto⟩ := hforall.flip.exists_of_mem hm'
            obtain ⟨text, htext⟩ := ClassFile.exists_name_of_candidates hcandidates hm
            have htext' : d.file.memberName m' = .ok text :=
              (hinto.declaration.memberName d.file).trans (hgrows.pool.utf8 htext)
            obtain rfl : text = g.rule.targetMethod := Except.ok.inj (htext'.symm.trans hname')
            exact absurd htext (hnone m hm)
          · rw [hstatic, Member.isStatic, (hnew m' hm').access]
            rfl
        · exact hagrees (hmissing fun m hm hname => hdeclared ⟨m, hm, hname⟩)
      rw [hinstance] at htrue
      cases htrue

/-! ## Groups -/

namespace TargetGroup

variable {g : TargetGroup} {inputs : Inputs} {work : String} {fs : FileSystem} {file : ClassFile}

/-- A group finds the class in its inputs, and it declares the name. -/
def Reads (g : TargetGroup) (inputs : Inputs) (fs : FileSystem) (file : ClassFile) : Prop :=
  ∃ root bytes, inputs.locate? fs g.target = some root ∧ root.readEntry fs (classEntryName g.target) = .ok bytes ∧
    ClassFile.decode bytes = .ok file ∧ file.name = .ok g.target

/-- The outcome of a rule with an index is that its calls are in the class. -/
def Injects (g : TargetGroup) (inputs : Inputs) (work : String) (fs : FileSystem) (index : Nat) : Prop :=
  ∃ outcome, (index, outcome) ∈ (g.run inputs work fs).1 ∧ outcome.isInjected = true

/-- The class with the calls of all rules that were applied. -/
def changed (g : TargetGroup) (file : ClassFile) : ClassFile := ((ClassDraft.of file).injectRules g.rules).1.file

theorem encode_of_encodeReadable {d : ClassDraft} {data : List UInt8} (h : d.encodeReadable = .ok data) :
    d.file.encode = .ok data := by
  simp only [ClassDraft.encodeReadable, Except.bind_eq_ok_iff, Except.mapError_eq_ok_iff] at h
  obtain ⟨bytes, hbytes, h⟩ := h
  obtain rfl : bytes = data := by
    split at h
    · exact Except.pure_eq_ok_iff.1 h
    · split at h
      · exact Except.pure_eq_ok_iff.1 h
      · cases h
  exact hbytes

theorem change_ok {m : Materialized} {data : List UInt8} {results : GroupResults}
    (h : g.change m = .ok (data, results)) :
    ∃ file, m.decode g.target = .ok file ∧ (g.changed file).encode = .ok data ∧
      results = ((ClassDraft.of file).injectRules g.rules).2 := by
  unfold change at h
  cases hdecode : m.decode g.target with
  | error error =>
    rw [hdecode] at h
    cases h
  | ok file =>
    rw [hdecode] at h
    dsimp only at h
    split at h
    · split at h
      · cases h
      · next encoded hencoded =>
        cases h
        exact ⟨file, rfl, encode_of_encodeReadable hencoded, rfl⟩
    · cases h

/-- A rule of a group that was applied has its calls in the class, if any rule has. -/
theorem exists_of_injects {index : Nat} (h : g.Injects inputs work fs index) :
    ∃ file data, g.Reads inputs fs file ∧ g.Rewrites inputs work fs data ∧ (g.changed file).encode = .ok data ∧
      ∀ index injection, (index, .ok injection) ∈ ((ClassDraft.of file).injectRules g.rules).2 →
        g.Injects inputs work fs index := by
  obtain ⟨outcome, hmem, hinjected⟩ := h
  obtain ⟨root, bytes, data, results, fs₁, fs₂, hlocate, hread, hcopy, hchange, hwrite⟩ :=
    steps_of_injected hmem hinjected
  obtain ⟨file, hdecode, hencode, rfl⟩ := change_ok hchange
  obtain ⟨hfile, hname⟩ := Materialized.decode_eq_ok_iff.1 hdecode
  refine ⟨file, data, ⟨root, bytes, hlocate, hread, hfile, hname⟩, ⟨root, bytes, _, hlocate, hread, hchange⟩, hencode,
    fun index injection hresult => ?_⟩
  unfold Injects
  rw [run_eq_of hlocate hread hcopy hchange hwrite]
  exact ⟨_, List.mem_map_of_mem hresult, rfl⟩

/-- What is put into the class of a group. -/
theorem weaves_changed (htarget : ∀ r ∈ g.rules, r.rule.targetClass = g.target) (h : g.Reads inputs fs file) :
    file.WeavesInto (fun name isStatic i => ∃ r ∈ g.rules, r.rule.targetMethod = name ∧
      (∃ injection, (r.index, .ok injection) ∈ ((ClassDraft.of file).injectRules g.rules).2) ∧
      r.Linked (g.changed file) isStatic i) (g.changed file) := by
  obtain ⟨root, bytes, -, -, hfile, hname⟩ := h
  have hsize := ClassFile.size_pool_le hfile
  have haligned := ClassDraft.aligned_of file
  obtain ⟨hgrows, -⟩ := ClassDraft.injectRules_grows g.rules haligned hsize
  apply (ClassDraft.weaves_injectRules g.rules haligned hsize).mono
  intro name isStatic i hputs
  obtain ⟨r, hr, hmethod, hresult, hagrees, steps, hregisters, hi⟩ := hputs
  refine ⟨r, hr, hmethod, hresult, ?_⟩
  have hname' : (g.changed file).name = .ok r.rule.targetClass := by
    rw [htarget r hr, ClassFile.name, changed, ClassDraft.thisClass_injectRules]
    exact hgrows.pool.className hname
  exact ClassDraft.linked_of_registers (hgrows.pool.size_le hsize) hname' hagrees hregisters hi

theorem decode_of_materialize {m : Materialized} {fs' : FileSystem} (h : g.Reads inputs fs file)
    (hm : materialize inputs g.target work fs = .ok m fs') : m.decode g.target = .ok file := by
  obtain ⟨root, bytes, hlocate, hentry, hfile, hname⟩ := h
  rw [materialize_eq, hlocate] at hm
  dsimp only at hm
  rw [hentry] at hm
  dsimp only at hm
  split at hm
  · cases hm
  · obtain ⟨rfl, -⟩ := EStateM.Result.ok.inj hm
    exact Materialized.decode_eq_ok_iff.2 ⟨hfile, hname⟩

/-- A rule that fails has that as its outcome. All else is as if it were not there. -/
theorem run_of_error {target : String} {before later : List GroupRule} {r : GroupRule} {error : TargetError}
    (hread : Reads ⟨target, before ++ r :: later⟩ inputs fs file)
    (herror : ((ClassDraft.of file).injectRules before).1.inject r.rule r.matched = .error error) :
    ∃ error outs outs', outs.length = before.length ∧
      (run ⟨target, before ++ r :: later⟩ inputs work fs).1 = outs ++ (r.index, .skipped error) :: outs' ∧
      run ⟨target, before ++ later⟩ inputs work fs =
        (outs ++ outs', (run ⟨target, before ++ r :: later⟩ inputs work fs).2) := by
  have hlength := length_injectRules (ClassDraft.of file) before
  unfold run
  cases hmaterialize : materialize inputs target work fs with
  | error e fs' =>
    refine ⟨e, skipAll ⟨target, before⟩ e, skipAll ⟨target, later⟩ e, ?_, ?_, ?_⟩ <;> simp [skipAll]
  | ok m fs' =>
    dsimp only
    rw [decode_of_materialize hread hmaterialize]
    dsimp only
    rw [ClassDraft.injectRules_append, ClassDraft.injectRules_append, ClassDraft.injectRules, herror]
    dsimp only
    generalize ((ClassDraft.of file).injectRules before).1.injectRules later = rest
    generalize ((ClassDraft.of file).injectRules before).2 = results at hlength
    obtain ⟨d, results'⟩ := rest
    have hany : anyApplied (results ++ (r.index, .error error) :: results') = anyApplied (results ++ results') := by
      simp [anyApplied]
    have hstore : store ⟨target, before ++ r :: later⟩ m d fs' = store ⟨target, before ++ later⟩ m d fs' := rfl
    dsimp only
    rw [hany, hstore]
    simp only [List.map_append, List.map_cons]
    split <;> exact ⟨error, _, _, by rw [List.length_map, hlength], rfl, rfl⟩

/-- A class with the static method `r` and the instance method `q`, both to register the class `B`. -/
def mixedFile : ClassFile :=
  { registrar "a" with
    pool := ⟨(registrar "a").pool.entries.push (.ofText "q")⟩
    methods := [⟨.static, 5, 6, []⟩, ⟨⟨0⟩, 7, 6, []⟩] }

/-- The bytes of that class. -/
def mixedBytes : List UInt8 :=
  match mixedFile.encode with
  | .ok bytes => bytes
  | .error _ => []

/-- An archive with that class. -/
def mixedInput : FileSystem where
  root := .directory .full [("in.jar", .file .full (.ofArchive [⟨"a.class", .bytes mixedBytes⟩]))]
  workingDirectory := []

/-- Two rules for a static initializer that is missing, of which one registers with an instance method. -/
def mixedRules : List Rule :=
  [{ registryRule with targetClass := "a" }, { registryRule with targetClass := "a", registerMethod := "q" }]

/-- The group of that class. -/
def mixedGroup : TargetGroup := groupOf mixedRules twoMatched "a"

/-- **Linking.** Wherever a rule of a group has its calls in the class that is written, all that was put into the
methods of that class was put in by such rules, and all calls among it link. A rule that disagrees with the class fails,
and the group does for all other rules what it does without that one. -/
theorem links_run {rules : List Rule} {matched : List NameSet} (hg : g ∈ TargetGroup.all rules matched)
    (inputs : Inputs) (work : String) (fs : FileSystem) :
    (∀ index, g.Injects inputs work fs index → ∃ file data, g.Reads inputs fs file ∧ g.Rewrites inputs work fs data ∧
      (g.changed file).encode = .ok data ∧
      file.WeavesInto (fun name isStatic i => ∃ r ∈ g.rules, r.rule.targetMethod = name ∧
        g.Injects inputs work fs r.index ∧ r.Linked (g.changed file) isStatic i) (g.changed file)) ∧
    ∀ file, g.Reads inputs fs file → ∀ before r later, g.rules = before ++ r :: later → r.Disagrees file →
      ∃ error outs outs', outs.length = before.length ∧
        (g.run inputs work fs).1 = outs ++ (r.index, .skipped error) :: outs' ∧
        run ⟨g.target, before ++ later⟩ inputs work fs = (outs ++ outs', (g.run inputs work fs).2) := by
  have htarget : ∀ r ∈ g.rules, r.rule.targetClass = g.target := by
    rw [all_eq] at hg
    obtain ⟨target, -, rfl⟩ := List.mem_map.1 hg
    intro r hr
    exact beq_iff_eq.1 (List.mem_filter.1 hr).2
  constructor
  · intro index hinjects
    obtain ⟨file, data, hread, hrewrites, hencode, hresults⟩ := exists_of_injects hinjects
    refine ⟨file, data, hread, hrewrites, hencode, (weaves_changed htarget hread).mono ?_⟩
    intro name isStatic i hadded
    obtain ⟨r, hr, hmethod, ⟨injection, hresult⟩, hlinked⟩ := hadded
    exact ⟨r, hr, hmethod, hresults _ _ hresult, hlinked⟩
  · intro file hread before r later hrules hdisagrees
    obtain ⟨_, _, -, -, hfile, -⟩ := id hread
    have hsize := ClassFile.size_pool_le hfile
    have haligned := ClassDraft.aligned_of file
    obtain ⟨hgrows, haligned'⟩ := ClassDraft.injectRules_grows before haligned hsize
    have hweaves := ClassDraft.weaves_injectRules before haligned hsize
    obtain ⟨error, herror⟩ := ClassDraft.exists_error_of_disagrees haligned' hgrows hweaves hdisagrees
    obtain ⟨target, rules⟩ := g
    obtain rfl : rules = before ++ r :: later := hrules
    exact run_of_error hread herror

theorem links_run_mixed :
    (∃ file data, mixedGroup.Reads ⟨[], ["in.jar"]⟩ mixedInput file ∧
      mixedGroup.Rewrites ⟨[], ["in.jar"]⟩ "w" mixedInput data ∧ (mixedGroup.changed file).encode = .ok data ∧
      file.WeavesInto (fun name isStatic i => ∃ r ∈ mixedGroup.rules, r.rule.targetMethod = name ∧
        mixedGroup.Injects ⟨[], ["in.jar"]⟩ "w" mixedInput r.index ∧
        r.Linked (mixedGroup.changed file) isStatic i) (mixedGroup.changed file)) ∧
    ∃ error outs outs', outs.length = 1 ∧
      (mixedGroup.run ⟨[], ["in.jar"]⟩ "w" mixedInput).1 = outs ++ (1, .skipped error) :: outs' ∧
      run ⟨"a", mixedGroup.rules.take 1⟩ ⟨[], ["in.jar"]⟩ "w" mixedInput =
        (outs ++ outs', (mixedGroup.run ⟨[], ["in.jar"]⟩ "w" mixedInput).2) := by
  have hg : mixedGroup ∈ TargetGroup.all mixedRules twoMatched := by
    have htarget : "a" ∈ targets mixedRules twoMatched := by decide +kernel
    rw [all_eq]
    exact List.mem_map_of_mem htarget
  have hread : mixedGroup.Reads ⟨[], ["in.jar"]⟩ mixedInput mixedFile :=
    ⟨.archive "in.jar", mixedBytes, by decide +kernel, by decide +kernel, by decide +kernel, by decide +kernel⟩
  have hinjects : mixedGroup.Injects ⟨[], ["in.jar"]⟩ "w" mixedInput 0 :=
    ⟨.injected "a.class" "w/classes/a.class" 1 1, by decide +kernel, rfl⟩
  have hrules : mixedGroup.rules =
      [⟨0, mixedRules[0], .ofList ["B"]⟩] ++ ⟨1, mixedRules[1], .ofList ["B"]⟩ :: [] := rfl
  have hdisagrees : GroupRule.Disagrees ⟨1, mixedRules[1], .ofList ["B"]⟩ mixedFile := by
    refine ⟨[⟨"(LB;)V", "B", false, 0⟩], "B", ⟨"(LB;)V", "B", false, 0⟩, by decide +kernel, ?_, by decide +kernel,
      .inr ⟨by decide +kernel, rfl, rfl⟩⟩
    exact List.mem_singleton_self _
  obtain ⟨hlinked, hfails⟩ := links_run hg ⟨[], ["in.jar"]⟩ "w" mixedInput
  exact ⟨hlinked 0 hinjects, hfails mixedFile hread _ _ _ hrules hdisagrees⟩

end TargetGroup

end Registrar
