import Registrar.Proofs.Rewriting

/-!
# What all rules put into a class

* `Woven` : a code with instructions put between its own. `Woven.trans` : more instructions may be put in later;
* `ClassFile.WeavesInto` : a class in whose methods instructions were put, or which has new static initializers;
* `Rule.Agrees` : the methods that a rule calls are static just if those are that call them. `agrees_of_inject` : a rule
  that is applied agrees with every method of its name;
* `ClassDraft.weaves_injectRules` : what all rules put into a class are the steps of the calls of those that were
  applied.
-/

namespace Registrar

open ConstantPool (Extends)

/-! ## Codes -/

/-- The second code consists of the instructions of the first one, with other distances, and of instructions between
them that have a property. -/
inductive Woven (added : Instruction → Prop) : List Placed → List Placed → Prop
  | nil : Woven added [] []
  | kept {p q : Placed} {ps qs : List Placed} :
      Instruction.Moved (fun _ _ => True) p.offset q.offset p.instruction q.instruction → Woven added ps qs →
      Woven added (p :: ps) (q :: qs)
  | added {q : Placed} {ps qs : List Placed} : added q.instruction → Woven added ps qs → Woven added ps (q :: qs)

namespace Woven

variable {A B : Instruction → Prop} {ps qs rs : List Placed}

theorem mono (hAB : ∀ i, A i → B i) (h : Woven A ps qs) : Woven B ps qs := by
  induction h with
  | nil => exact .nil
  | kept hmoved _ ih => exact .kept hmoved ih
  | added hadded _ ih => exact .added (hAB _ hadded) ih

/-- Straight code that was put in stays as it is when more is put in. -/
theorem trans (hA : ∀ i, A i → i.IsStraight) (h : Woven A ps qs) (h' : Woven A qs rs) : Woven A ps rs := by
  induction h' generalizing ps with
  | nil => exact h
  | kept hmoved' _ ih =>
    cases h with
    | kept hmoved h => exact .kept ((hmoved.trans hmoved').mono fun _ _ _ => trivial) (ih h)
    | added hadded h =>
      rw [← (hA _ hadded).eq_of_moved hmoved'] at hadded
      exact .added hadded (ih h)
  | added hadded _ ih => exact .added hadded (ih h)

theorem layOut_append {is : List Instruction} (his : ∀ i ∈ is, A i) (offset : Nat) (h : Woven A ps qs) :
    Woven A ps (Placed.layOut offset is ++ qs) := by
  induction is generalizing offset with
  | nil => exact h
  | cons i is ih =>
    rw [List.forall_mem_cons] at his
    exact .added his.1 (ih his.2 _)

theorem newCode {T : Nat → Nat → Prop} {ss : List Splice} {inner : Splice → List Instruction}
    (hmoved : ∀ s ∈ ss, Instruction.Moved T s.old.offset s.position s.old.instruction s.moved)
    (hinner : ∀ s ∈ ss, ∀ i ∈ inner s, A i) : Woven A (ss.map (·.old)) (Splice.newCode ss inner) := by
  induction ss with
  | nil => exact .nil
  | cons s ss ih =>
    rw [List.forall_mem_cons] at hmoved hinner
    rw [Splice.newCode, List.flatMap_cons, Splice.placed, List.append_assoc]
    apply layOut_append hinner.1
    exact .kept (hmoved.1.mono fun _ _ _ => trivial) (ih hmoved.2 hinner.2)

end Woven

/-! ## Methods -/

namespace Member

/-- The method has a body that consists of the instructions. -/
def HasCode (m : Member) (pool : ConstantPool) (code : List Placed) : Prop :=
  ∃ body, m.HasBody pool body ∧ Placed.decodeAll body.code = .ok code

theorem HasCode.extends {P Q : ConstantPool} (hPQ : Extends P Q) {m : Member} {code : List Placed}
    (h : m.HasCode P code) : m.HasCode Q code := by
  obtain ⟨body, hbody, hcode⟩ := h
  exact ⟨body, hbody.extends hPQ, hcode⟩

theorem HasCode.unique {m : Member} {pool : ConstantPool} {code code' : List Placed} (h : m.HasCode pool code)
    (h' : m.HasCode pool code') : code = code' := by
  obtain ⟨body, hbody, hcode⟩ := h
  obtain ⟨body', hbody', hcode'⟩ := h'
  obtain rfl := hbody.unique hbody'
  exact Except.ok.inj (hcode.symm.trans hcode')

/-- The method `m'` of the class is the method `m`, or it is that method with instructions put between its own. What may
be put in depends on the name of the method and on whether it is static. -/
structure WeavesInto (c : ClassFile) (added : String → Bool → Instruction → Prop) (m m' : Member) : Prop where
  declaration : m.SameDeclaration m'
  code : m' = m ∨ ∃ name code code', c.memberName m' = .ok name ∧ m.HasCode c.pool code ∧ m'.HasCode c.pool code' ∧
    Woven (added name m'.isStatic) code code'

/-- The method is a static initializer. It was a return before instructions were put in. -/
structure WovenInitializer (c : ClassFile) (added : String → Bool → Instruction → Prop) (m : Member) : Prop where
  access : m.access = .static
  name : c.memberName m = .ok ClassFile.staticInitializer
  descriptor : c.memberDescriptor m = .ok "()V"
  code : ∃ code, m.HasCode c.pool code ∧
    Woven (added ClassFile.staticInitializer true) [⟨0, .plain Opcode.returnVoid []⟩] code

end Member

/-! ## Classes -/

/-- The class `c'` is the class `c` with constants added, with instructions put into its methods, and with new static
initializers. -/
structure ClassFile.WeavesInto (added : String → Bool → Instruction → Prop) (c c' : ClassFile) : Prop where
  pool : Extends c.pool c'.pool
  methods : ∃ ms new, c'.methods = ms ++ new ∧ List.Forall₂ (Member.WeavesInto c' added) c.methods ms ∧
    ∀ m ∈ new, m.WovenInitializer c' added

section

variable {A B : String → Bool → Instruction → Prop} {c c₁ c₂ : ClassFile} {m m₁ m₂ : Member}

namespace Member

theorem WeavesInto.mono (hAB : ∀ name isStatic i, A name isStatic i → B name isStatic i) (h : WeavesInto c A m m₁) :
    WeavesInto c B m m₁ := by
  obtain ⟨hdeclaration, hsame | ⟨name, code, code', hname, hcode, hcode', hwoven⟩⟩ := h
  · exact ⟨hdeclaration, .inl hsame⟩
  · exact ⟨hdeclaration, .inr ⟨name, code, code', hname, hcode, hcode', hwoven.mono (hAB _ _)⟩⟩

theorem WovenInitializer.mono (hAB : ∀ name isStatic i, A name isStatic i → B name isStatic i)
    (h : m.WovenInitializer c A) : m.WovenInitializer c B := by
  obtain ⟨haccess, hname, hdescriptor, code, hcode, hwoven⟩ := h
  exact ⟨haccess, hname, hdescriptor, code, hcode, hwoven.mono (hAB _ _)⟩

theorem WeavesInto.trans (hA : ∀ name isStatic i, A name isStatic i → i.IsStraight)
    (hext : Extends c₁.pool c₂.pool) (h₁ : WeavesInto c₁ A m m₁) (h₂ : WeavesInto c₂ A m₁ m₂) :
    WeavesInto c₂ A m m₂ := by
  refine ⟨h₁.declaration.trans h₂.declaration, ?_⟩
  have hname₂ : c₂.memberName m₂ = c₂.memberName m₁ := h₂.declaration.memberName c₂
  have hstatic := h₂.declaration.isStatic
  rcases h₁.code with rfl | ⟨name, code, code₁, hname, hcode, hcode₁, hwoven⟩
  · exact h₂.code
  · have hname' : c₂.memberName m₂ = .ok name := hname₂.trans (hext.utf8 hname)
    right
    rcases h₂.code with rfl | ⟨name', code₁', code₂, hother, hcode₁', hcode₂, hwoven'⟩
    · exact ⟨name, code, code₁, hname', hcode.extends hext, hcode₁.extends hext, hwoven⟩
    · obtain rfl : name' = name := Except.ok.inj (hother.symm.trans hname')
      obtain rfl := (hcode₁.extends hext).unique hcode₁'
      rw [← hstatic] at hwoven
      exact ⟨_, code, code₂, hname', hcode.extends hext, hcode₂, hwoven.trans (hA _ _) hwoven'⟩

theorem WovenInitializer.trans (hA : ∀ name isStatic i, A name isStatic i → i.IsStraight)
    (hext : Extends c₁.pool c₂.pool) (h₁ : m₁.WovenInitializer c₁ A) (h₂ : WeavesInto c₂ A m₁ m₂) :
    m₂.WovenInitializer c₂ A := by
  obtain ⟨haccess, hname, hdescriptor, code, hcode, hwoven⟩ := h₁
  have haccess' : m₂.access = .static := h₂.declaration.access.trans haccess
  have hname' : c₂.memberName m₂ = .ok ClassFile.staticInitializer :=
    (h₂.declaration.memberName c₂).trans (hext.utf8 hname)
  have hdescriptor' : c₂.memberDescriptor m₂ = .ok "()V" :=
    (h₂.declaration.memberDescriptor c₂).trans (hext.utf8 hdescriptor)
  refine ⟨haccess', hname', hdescriptor', ?_⟩
  rcases h₂.code with rfl | ⟨name', code₁', code₂, hother, hcode₁', hcode₂, hwoven'⟩
  · exact ⟨code, hcode.extends hext, hwoven⟩
  · obtain rfl : name' = ClassFile.staticInitializer := Except.ok.inj (hother.symm.trans hname')
    obtain rfl := (hcode.extends hext).unique hcode₁'
    have hstatic : m₂.isStatic = true := by
      rw [isStatic, haccess']
      rfl
    rw [hstatic] at hwoven'
    exact ⟨code₂, hcode₂, hwoven.trans (hA _ _) hwoven'⟩

end Member

namespace ClassFile.WeavesInto

theorem refl (c : ClassFile) : c.WeavesInto A c :=
  ⟨.refl, c.methods, [], (List.append_nil _).symm,
    List.forall₂_same.2 fun _ _ => ⟨⟨rfl, rfl, rfl⟩, .inl rfl⟩, by simp⟩

theorem mono (hAB : ∀ name isStatic i, A name isStatic i → B name isStatic i) (h : c.WeavesInto A c₁) :
    c.WeavesInto B c₁ := by
  obtain ⟨hpool, ms, new, hms, hweaves, hnew⟩ := h
  exact ⟨hpool, ms, new, hms, hweaves.imp fun _ _ hm => hm.mono hAB, fun m hm => (hnew m hm).mono hAB⟩

theorem trans (hA : ∀ name isStatic i, A name isStatic i → i.IsStraight) (h₁ : c.WeavesInto A c₁)
    (h₂ : c₁.WeavesInto A c₂) : c.WeavesInto A c₂ := by
  obtain ⟨hpool, ms, new, hms, hweaves, hnew⟩ := h₁
  obtain ⟨hpool', ms', new', hms', hweaves', hnew'⟩ := h₂
  rw [hms] at hweaves'
  obtain ⟨ns, ns', rfl, hns, hns'⟩ := hweaves'.of_append_left
  refine ⟨hpool.trans hpool', ns, ns' ++ new', ?_, ?_, fun m hm => ?_⟩
  · rw [hms', List.append_assoc]
  · exact List.forall₂_trans_of (fun _ _ _ hm hm' => hm.trans hA hpool' hm') hweaves hns
  · rcases List.mem_append.1 hm with hm | hm
    · obtain ⟨m₁, hm₁, hinto⟩ := hns'.flip.exists_of_mem hm
      exact (hnew m₁ hm₁).trans hA hpool' hinto
    · exact hnew' m hm

end ClassFile.WeavesInto

end

/-! ## Agreement -/

/-- The methods that a rule chooses for the classes that it registers are static just if `isStatic`. -/
def Rule.Agrees (r : Rule) (matched : NameSet) (c : ClassFile) (isStatic : Bool) : Prop :=
  ∀ candidates className chosen, c.candidates r.registerMethod = .ok candidates → className ∈ matched →
    r.choose className candidates = .ok chosen → chosen.isStatic = isStatic

theorem Rule.Agrees.grows {r : Rule} {matched : NameSet} {c c' : ClassFile} {isStatic : Bool}
    {candidates : List RegisterCandidate} (hcandidates : c.candidates r.registerMethod = .ok candidates)
    (hgrows : c.Grows c') (h : r.Agrees matched c isStatic) : r.Agrees matched c' isStatic := by
  intro candidates' className chosen hcandidates' hmem hchoose
  obtain rfl : candidates = candidates' := Except.ok.inj ((hgrows.candidates hcandidates).symm.trans hcandidates')
  exact h candidates className chosen hcandidates hmem hchoose

theorem Rule.checkStaticness_eq_ok_iff {r : Rule} {calls : List RegisterCall} {isStatic : Bool} :
    r.checkStaticness calls isStatic = .ok () ↔ ∀ call ∈ calls, call.isStatic = isStatic := by
  have hnone : r.checkStaticness calls isStatic = .ok () ↔
      calls.find? (fun call => call.isStatic != isStatic) = none := by
    unfold checkStaticness
    split <;> simp_all
  rw [hnone, List.find?_eq_none]
  simp

theorem Rule.agrees_of_calls {r : Rule} {matched : NameSet} {c : ClassFile} {isStatic : Bool}
    {candidates : List RegisterCandidate} {calls : List RegisterCall}
    (hcandidates : c.candidates r.registerMethod = .ok candidates)
    (hcalls : matched.toList.mapM (r.call candidates) = .ok calls) (h : ∀ call ∈ calls, call.isStatic = isStatic) :
    r.Agrees matched c isStatic := by
  intro candidates' className chosen hcandidates' hmem hchoose
  obtain rfl : candidates = candidates' := Except.ok.inj (hcandidates.symm.trans hcandidates')
  obtain ⟨call, hcall, heq⟩ := (Except.mapM_eq_ok_iff.1 hcalls).exists_of_mem hmem
  obtain ⟨chosen', hchoose', rfl⟩ := call_eq_ok_iff.1 heq
  obtain rfl : chosen = chosen' := Except.ok.inj (hchoose.symm.trans hchoose')
  exact h _ hcall

namespace ClassDraft

variable {d d' : ClassDraft} {r : Rule} {matched : NameSet} {injection : RuleInjection} {calls : List RegisterCall}

theorem checked_of_injectMethods {P P' : ConstantPool} {named : List (String × TargetMethod)} {ts : List TargetMethod}
    (h : d.injectMethods r calls P named = .ok (ts, P')) {t : TargetMethod} (ht : (r.targetMethod, t) ∈ named) :
    r.checkStaticness calls t.member.isStatic = .ok () := by
  induction named generalizing P P' ts with
  | nil => cases ht
  | cons x named ih =>
    obtain ⟨name, t'⟩ := x
    by_cases hname : name = r.targetMethod
    · simp only [injectMethods, if_pos hname, Except.bind_eq_ok_iff, Except.pure_eq_ok_iff] at h
      obtain ⟨⟨t₁, P₁⟩, hfirst, ⟨ts₁, P₂⟩, hrest, -⟩ := h
      rcases List.mem_cons.1 ht with heq | ht
      · obtain ⟨-, rfl⟩ := Prod.mk.inj heq
        rw [injectMethod, InjectionMode.select?, if_pos rfl] at hfirst
        simp only [Except.bind_eq_ok_iff] at hfirst
        obtain ⟨u, hchecked, -⟩ := hfirst
        exact hchecked
      · exact ih hrest ht
    · simp only [injectMethods, if_neg hname, Except.bind_eq_ok_iff, Except.pure_eq_ok_iff] at h
      obtain ⟨_, rfl, ⟨ts₁, P₂⟩, hrest, -⟩ := h
      rcases List.mem_cons.1 ht with heq | ht
      · exact absurd (Prod.mk.inj heq).1.symm hname
      · exact ih hrest ht

theorem checked_of_synthesize (h : d.synthesize r calls = .ok d') : r.checkStaticness calls true = .ok () := by
  rw [synthesize] at h
  split at h
  · simp only [Except.bind_eq_ok_iff] at h
    obtain ⟨u, hchecked, -⟩ := h
    exact hchecked
  · cases h

/-- A rule that is applied agrees with all methods of its name, or with a static initializer if there is none. -/
theorem agrees_of_inject (haligned : d.Aligned) (h : d.inject r matched = .ok (d', injection)) :
    (∃ candidates, d.file.candidates r.registerMethod = .ok candidates) ∧
      (∀ m ∈ d.file.methods, d.file.memberName m = .ok r.targetMethod → r.Agrees matched d.file m.isStatic) ∧
      ((∀ m ∈ d.file.methods, d.file.memberName m ≠ .ok r.targetMethod) → r.Agrees matched d.file true) := by
  obtain ⟨candidates, calls, names, hcandidates, hcalls, hnames, h⟩ := exists_of_inject h
  have hagrees {isStatic : Bool} (hchecked : r.checkStaticness calls isStatic = .ok ()) :
      r.Agrees matched d.file isStatic :=
    Rule.agrees_of_calls hcandidates hcalls (Rule.checkStaticness_eq_ok_iff.1 hchecked)
  refine ⟨⟨candidates, hcandidates⟩, ?_⟩
  rw [← haligned, List.forall₂_map_left_iff] at hnames
  rcases h with ⟨hcount, hsynthesize⟩ | ⟨hcount, ts, P, hts, -⟩
  · refine ⟨fun m hm hname => ?_, fun _ => hagrees (checked_of_synthesize hsynthesize)⟩
    obtain ⟨t, ht, rfl⟩ := haligned.mem.1 hm
    obtain ⟨name, hmem, heq⟩ := hnames.exists_of_mem ht
    rw [hname, Except.ok.injEq] at heq
    exact absurd (heq ▸ hmem) (List.count_eq_zero.1 hcount)
  · constructor
    · intro m hm hname
      obtain ⟨t, ht, rfl⟩ := haligned.mem.1 hm
      apply hagrees
      apply checked_of_injectMethods hts
      obtain ⟨i, hi, rfl⟩ := List.getElem_of_mem ht
      have hi' : i < names.length := hnames.length_eq ▸ hi
      have heq := hnames.get hi hi'
      simp only [List.get_eq_getElem] at heq
      rw [hname, Except.ok.injEq] at heq
      rw [heq, ← List.getElem_zip (h := by simp [hi, hi'])]
      exact List.getElem_mem _
    · intro hmissing
      obtain ⟨t, ht, heq⟩ := hnames.flip.exists_of_mem (List.count_pos_iff.1 (Nat.pos_of_ne_zero hcount))
      exact absurd heq (hmissing t.member (haligned.mem.2 ⟨t, ht, rfl⟩))

/-! ## All rules -/

/-- The instruction belongs to the calls of a rule that was applied, for methods that have the name and are static or
not. The class holds the constants of the calls. -/
def Puts (d : ClassDraft) (gs : List GroupRule) (results : GroupResults) (name : String) (isStatic : Bool)
    (i : Instruction) : Prop :=
  ∃ g ∈ gs, g.rule.targetMethod = name ∧ (∃ injection, (g.index, .ok injection) ∈ results) ∧
    g.rule.Agrees g.matched d.file isStatic ∧
    ∃ steps, d.Registers isStatic g steps ∧ i ∈ steps.map RegistrationStep.instruction

theorem Puts.isStraight {gs : List GroupRule} {results : GroupResults} {name : String} {isStatic : Bool}
    {i : Instruction} (h : d.Puts gs results name isStatic i) : i.IsStraight := by
  obtain ⟨_, -, -, -, -, steps, -, hi⟩ := h
  exact forall_isStraight steps i hi

theorem Puts.mono {gs gs' : List GroupRule} {results results' : GroupResults} {name : String} {isStatic : Bool}
    {i : Instruction} (hgs : gs ⊆ gs') (hresults : results ⊆ results') (h : d.Puts gs results name isStatic i) :
    d.Puts gs' results' name isStatic i := by
  obtain ⟨g, hg, htarget, ⟨injection, hinjection⟩, hputs⟩ := h
  exact ⟨g, hgs hg, htarget, ⟨injection, hresults hinjection⟩, hputs⟩

/-- What one rule puts into a class. `c` is the class after more rules. -/
theorem weaves_of_inject {c : ClassDraft} {g : GroupRule} (haligned : d.Aligned)
    (hsize : d.file.pool.entries.size ≤ ConstantPool.maxEntries)
    (h : d.inject g.rule g.matched = .ok (d', injection)) (hgrows : d'.file.Grows c.file) :
    d.file.WeavesInto (c.Puts [g] [(g.index, .ok injection)]) d'.file := by
  obtain ⟨hgrows₁, haligned', -, hbecomes⟩ := inject_ok haligned hsize h
  obtain ⟨⟨candidates, hcandidates⟩, hnamed, hmissing⟩ := agrees_of_inject haligned h
  have hputs {isStatic : Bool} {stepss : List (List RegistrationStep)}
      (hagrees : g.rule.Agrees g.matched d.file isStatic)
      (hstepss : List.Forall₂ (d'.Registers isStatic) [g] stepss) :
      ∀ i ∈ stepss.flatten.map RegistrationStep.instruction,
        c.Puts [g] [(g.index, .ok injection)] g.rule.targetMethod isStatic i := by
    obtain ⟨steps, _, hsteps, hnil, rfl⟩ := List.forall₂_cons_left_iff.1 hstepss
    obtain rfl := List.forall₂_nil_left_iff.1 hnil
    rw [List.flatten_cons, List.flatten_nil, List.append_nil]
    intro i hi
    exact ⟨g, List.mem_singleton_self _, rfl, ⟨injection, List.mem_singleton_self _⟩,
      hagrees.grows hcandidates (hgrows₁.trans hgrows), steps, hsteps.grows hgrows, hi⟩
  refine ⟨hgrows₁.pool, ?_⟩
  cases hbecomes with
  | declared _ hmethods =>
    refine ⟨d'.file.methods, [], (List.append_nil _).symm, ?_, by simp⟩
    rw [← haligned, ← haligned', List.forall₂_map_left_iff, List.forall₂_map_right_iff]
    refine hmethods.with_mem.imp fun t t' ⟨ht, hcomposed, hother⟩ => ?_
    by_cases hname : d.file.memberName t.member = .ok g.rule.targetMethod
    · have hname' := (hcomposed hname).memberName hgrows₁.pool hname
      obtain ⟨mode, stepss, -, hstepss, hinjected⟩ := hcomposed hname
      have hagrees := hnamed t.member (haligned.mem.2 ⟨t, ht, rfl⟩) hname
      have hsame := hinjected.sameDeclaration
      obtain ⟨body, code, body', ss, hbody, hcode, hbody', rfl, hspliced, hcode'⟩ := hinjected.carries
      refine ⟨hsame, .inr ⟨_, _, _, hname', ⟨body, hbody, hcode⟩, ⟨body', hbody', hcode'⟩, ?_⟩⟩
      apply Woven.newCode hspliced.moved
      intro s _ i hi
      rw [hsame.isStatic]
      apply hputs hagrees hstepss
      unfold Splice.atPoints at hi
      split at hi
      · exact hi
      · cases hi
    · rw [hother hname]
      exact ⟨⟨rfl, rfl, rfl⟩, .inl rfl⟩
  | synthesized m stepss hnone hname hmethods hstepss hinitializes =>
    refine ⟨d.file.methods, [m], ?_, List.forall₂_same.2 fun _ _ => ⟨⟨rfl, rfl, rfl⟩, .inl rfl⟩, ?_⟩
    · rw [← haligned', hmethods, List.map_append, haligned]
      rfl
    · intro m' hm'
      obtain rfl := List.mem_singleton.1 hm'
      obtain ⟨body, hbody, hcode⟩ := hinitializes.holds
      refine ⟨hinitializes.access, hinitializes.name, hinitializes.descriptor, _, ⟨body, hbody, hcode⟩, ?_⟩
      have hadded := hputs (hmissing hnone) hstepss
      rw [hname] at hadded
      exact Woven.layOut_append hadded 0 (.kept (.plain _ _) .nil)

/-- **Rules put in their calls.** All that rules put into the methods of a class belongs to the calls of those that were
applied. -/
theorem weaves_injectRules (gs : List GroupRule) (haligned : d.Aligned)
    (hsize : d.file.pool.entries.size ≤ ConstantPool.maxEntries) :
    d.file.WeavesInto ((d.injectRules gs).1.Puts gs (d.injectRules gs).2) (d.injectRules gs).1.file := by
  induction gs generalizing d with
  | nil => exact .refl _
  | cons g gs ih =>
    rw [injectRules]
    split
    · next d' injection hinject =>
      obtain ⟨hgrows, haligned', -, -⟩ := inject_ok haligned hsize hinject
      have hsize' := hgrows.pool.size_le hsize
      have hfirst := weaves_of_inject haligned hsize hinject (injectRules_grows gs haligned' hsize').1
      have hrest := ih haligned' hsize'
      apply ClassFile.WeavesInto.trans (fun _ _ _ hputs => hputs.isStraight)
      · exact hfirst.mono fun _ _ _ hputs => hputs.mono (by simp) (by simp)
      · exact hrest.mono fun _ _ _ hputs => hputs.mono (List.subset_cons_self _ _) (List.subset_cons_self _ _)
    · exact (ih haligned hsize).mono fun _ _ _ hputs =>
        hputs.mono (List.subset_cons_self _ _) (List.subset_cons_self _ _)

end ClassDraft

end Registrar
