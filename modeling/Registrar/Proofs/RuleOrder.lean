import Registrar.Injection.Target
import Registrar.Proofs.Composition
import Registrar.Proofs.Interning

/-!
# Rules one after the other

* `Injected.trans` : steps put into a method, and more steps after that, are all steps put in at once;
* `Member.Initializes` : a static initializer that holds nothing but steps. `Initializes.inject` : more steps go behind
  them;
* `ClassFile.Grows` : a class with constants added and bodies exchanged. `Registers.grows` : the calls of a rule stay;
* `ClassDraft.Becomes` : what rules make of a class. `inject_ok` : one rule; `Becomes.trans` : more rules;
* `ClassDraft.becomes_injectRules` : all rules of a class.
-/

namespace Registrar

open ConstantPool (Extends)

/-! ## Methods and larger pools -/

/-- The attributes that have a name keep it, and no others get it, once the name is in the pool. -/
theorem Member.isNamed_extends {P Q : ConstantPool} (h : Extends P Q) {text : String}
    (htext : ∃ e ∈ P.entries, ConstantPool.isText text e = true) :
    isNamed Q text = isNamed P text := by
  funext a
  rw [Bool.eq_iff_iff, Attribute.isNamed_iff, Attribute.isNamed_iff]
  constructor
  · intro hQ
    obtain ⟨e, he, hetext⟩ := ConstantPool.utf8_eq_ok_iff.1 hQ
    exact ConstantPool.utf8_eq_ok_iff.2 ⟨e, h.getElem?_of_isText htext he hetext, hetext⟩
  · exact h.utf8

theorem Member.attributePosition_extends {P Q : ConstantPool} (h : Extends P Q) {m : Member} {name : String}
    {position : Nat} (hposition : m.attributePosition P name = some position) :
    m.attributePosition Q name = some position := by
  obtain ⟨hlt, hnamed, -⟩ := List.findIdx?_eq_some_iff_getElem.1 hposition
  obtain ⟨e, he, htext⟩ := ConstantPool.utf8_eq_ok_iff.1 (Attribute.isNamed_iff.1 hnamed)
  rwa [attributePosition, isNamed_extends h ⟨e, Array.mem_of_getElem? he, htext⟩]

theorem Member.HasBody.extends {P Q : ConstantPool} (h : Extends P Q) {m : Member} {body : MethodBody}
    (hbody : m.HasBody P body) : m.HasBody Q body := by
  obtain ⟨position, a, hposition, ha, hdecode⟩ := hbody
  exact ⟨position, a, attributePosition_extends h hposition, ha, hdecode⟩

namespace TargetMethod

variable {P Q : ConstantPool} {mode : InjectionMode} {a b : List RegistrationStep} {t t₁ t₂ : TargetMethod}

theorem withContent_withContent (m : Member) (position : Nat) (content content' : List UInt8) :
    withContent (withContent m position content) position content' = withContent m position content' := by
  simp only [withContent, List.modify_modify_eq]
  rfl

theorem Injected.extends (hPQ : Extends P Q) (h : Injected P mode a t t₁) : Injected Q mode a t t₁ := by
  obtain ⟨hmode, ⟨body, code, moved, maxStack, hbody, hcode, hmoved, hlocals, hbody'⟩,
    ⟨position, content, hposition, hmember⟩, hlength⟩ := h
  exact ⟨hmode, ⟨body, code, moved, maxStack, hbody.extends hPQ, hcode,
    MethodBody.insert_mono (fun _ _ => hPQ.utf8) hmoved, hlocals, hbody'.extends hPQ⟩,
    ⟨position, content, Member.attributePosition_extends hPQ hposition, hmember⟩, hlength⟩

/-- Steps put in one after the other are all of them put in at once. -/
theorem Injected.trans (hzero : t.entryLength = 0) (h₁ : Injected P mode a t t₁) (h₂ : Injected P mode b t₁ t₂) :
    Injected P mode (a ++ b) t t₂ := by
  obtain ⟨hmode, ⟨body, code, moved, maxStack, hbody, hcode, hmoved, hlocals, hbody₁⟩,
    ⟨position, content, hposition, hmember⟩, hlength⟩ := h₁
  obtain ⟨-, ⟨body₁, code₁, moved₂, maxStack₂, hbody₁', hcode₁, hmoved₂, hlocals₂, hbody₂⟩,
    ⟨position₂, content₂, hposition₂, hmember₂⟩, hlength₂⟩ := h₂
  obtain rfl := hbody₁.unique hbody₁'
  rw [hmember, Member.attributePosition_congr P codeName (map_name_withContent _ _ _), hposition,
    Option.some.injEq] at hposition₂
  subst hposition₂
  have hentry : mode = .entry → t₁.entryLength = (a.flatMap RegistrationStep.encode).length := by
    rintro rfl
    rw [hlength, entryLengthAfter, hzero, Nat.zero_add]
  refine ⟨hmode, ⟨body, code, { moved₂ with maxStack := moved.maxStack }, maxStack₂, hbody, hcode, ?_,
    hlocals₂.trans hlocals, hbody₂⟩, ⟨position, content₂, hposition, ?_⟩, ?_⟩
  · rw [hzero] at hmoved ⊢
    rw [← RegistrationStep.straightBytes_map] at hmoved hmoved₂ hentry ⊢
    rw [List.map_append]
    have hback := MethodBody.insert_withMaxStack hmoved₂ moved.maxStack
    change Placed.decodeAll moved.code = .ok code₁ at hcode₁
    exact MethodBody.insert_insert (forall_isStraight a) hmode hcode hcode₁ hentry hmoved hback
  · rw [hmember₂, hmember, withContent_withContent]
  · rw [hlength₂, List.flatMap_append]
    cases mode with
    | entry => simp only [entryLengthAfter, hlength, List.length_append, Nat.add_assoc]
    | exit | synthesize => exact hlength

/-- What is recorded as standing at the entry ends in front of an instruction. -/
theorem Injected.exists_offset_eq_entryLength (hzero : t.entryLength = 0) (h : Injected P .entry a t t₁) :
    ∃ body code, t₁.member.HasBody P body ∧ Placed.decodeAll body.code = .ok code ∧
      ∃ p ∈ code, p.offset = t₁.entryLength := by
  obtain ⟨-, ⟨body, code, moved, maxStack, -, -, hmoved, -, hbody₁⟩, -, hlength⟩ := h
  rw [hzero, ← RegistrationStep.straightBytes_map] at hmoved
  obtain ⟨code₁, hcode₁, hp⟩ := MethodBody.exists_offset_eq_length (forall_isStraight a) hmoved
  refine ⟨_, code₁, hbody₁, hcode₁, ?_⟩
  rwa [hlength, entryLengthAfter, hzero, Nat.zero_add, ← RegistrationStep.straightBytes_map]

end TargetMethod

/-! ## A new static initializer -/

/-- The method is a static initializer that holds nothing but steps and a return. -/
structure Member.Initializes (pool : ConstantPool) (steps : List RegistrationStep) (m : Member) : Prop where
  access : m.access = .static
  name : pool.utf8 m.name = .ok ClassFile.staticInitializer
  descriptor : pool.utf8 m.descriptor = .ok "()V"
  body : ∃ maxStack, m.HasBody pool
    ⟨maxStack, 0, steps.flatMap RegistrationStep.encode ++ [Opcode.returnVoid], [], []⟩

namespace Member

variable {P Q : ConstantPool} {a b : List RegistrationStep} {m : Member}

theorem Initializes.extends (hPQ : Extends P Q) (h : Initializes P a m) : Initializes Q a m := by
  obtain ⟨maxStack, hbody⟩ := h.body
  exact ⟨h.access, hPQ.utf8 h.name, hPQ.utf8 h.descriptor, maxStack, hbody.extends hPQ⟩

/-- More steps go between the steps and the return. -/
theorem Initializes.inject {n : Nat} {t : TargetMethod} (h : Initializes P a m)
    (ht : TargetMethod.Injected P .exit b ⟨m, n⟩ t) : Initializes P (a ++ b) t.member ∧ t.entryLength = n := by
  obtain ⟨haccess, hname, hdescriptor, maxStack, hbody⟩ := h
  obtain ⟨-, ⟨body, code, moved, maxStack', hbody', hcode, hmoved, -, hbody₁⟩, ⟨position, content, -, hmember⟩,
    hlength⟩ := ht
  obtain rfl := hbody.unique hbody'
  rw [← RegistrationStep.straightBytes_map a] at hcode hmoved
  obtain rfl := MethodBody.insert_before_return (forall_isStraight a) hcode hmoved
  refine ⟨⟨by rw [hmember]; exact haccess, by rw [hmember]; exact hname, by rw [hmember]; exact hdescriptor,
    maxStack', ?_⟩, hlength⟩
  rw [List.flatMap_append, List.append_assoc, ← RegistrationStep.straightBytes_map a]
  exact hbody₁

end Member

theorem ClassFile.initializer_ok {pool pool' : ConstantPool} {context : CallContext} {calls : List RegisterCall}
    {m : Member} (hpool : pool.entries.size ≤ ConstantPool.maxEntries)
    (h : initializer pool context calls = .ok (m, pool')) :
    ∃ steps, Extends pool pool' ∧ registrationSteps context calls pool' = .ok steps pool' ∧
      m.Initializes pool' steps ∧ m.HasBody pool' ⟨context.stackNeed, 0,
        steps.flatMap RegistrationStep.encode ++ [Opcode.returnVoid], [], []⟩ := by
  simp only [initializer, Except.bind_eq_ok_iff] at h
  obtain ⟨⟨bytes, pool₁⟩, hregistration, h⟩ := h
  obtain ⟨steps, hsteps, rfl⟩ := registrationIn_eq_ok_iff.1 hregistration
  obtain ⟨hext, hagain⟩ := registrationSteps_stable context calls _ _ _ hsteps
  split at h
  · cases h
  · next name descriptor code _ hnames =>
    simp only [Except.bind_eq_ok_iff, Except.mapError_eq_ok_iff, Except.pure_eq_ok_iff, Prod.mk.injEq] at h
    obtain ⟨content, hcontent, hm, rfl⟩ := h
    simp only [EStateM.bind_eq_ok_iff, EStateM.pure_eq_ok_iff, Prod.mk.injEq] at hnames
    obtain ⟨_, pool₂, hname, _, pool₃, hdescriptor, _, pool₄, hcode, ⟨rfl, rfl, rfl⟩, rfl⟩ := hnames
    have hsize₁ := hext.size_le hpool
    have hext₂ := (ConstantPool.Interning.stable_utf8Index _ _ _ _ hname).1
    have hsize₂ := hext₂.size_le hsize₁
    have hext₃ := (ConstantPool.Interning.stable_utf8Index _ _ _ _ hdescriptor).1
    have hext₄ := (ConstantPool.Interning.stable_utf8Index _ _ _ _ hcode).1
    have hcodeName := ConstantPool.utf8_of_utf8Index hcode (hext₃.size_le hsize₂)
    have hext₁₄ := (hext₂.trans hext₃).trans hext₄
    have hbody : m.HasBody pool₄
        ⟨context.stackNeed, 0, steps.flatMap RegistrationStep.encode ++ [Opcode.returnVoid], [], []⟩ := by
      rw [← hm]
      refine ⟨0, ⟨_, content⟩, ?_, rfl, MethodBody.decode_of_encode hcontent (Nat.zero_lt_succ _) (Nat.zero_lt_succ _)⟩
      rw [Member.attributePosition, List.findIdx?_cons, if_pos (Attribute.isNamed_iff.2 hcodeName)]
    subst hm
    exact ⟨steps, hext.trans hext₁₄, hagain _ hext₁₄, ⟨rfl,
      (hext₃.trans hext₄).utf8 (ConstantPool.utf8_of_utf8Index hname hsize₁),
      hext₄.utf8 (ConstantPool.utf8_of_utf8Index hdescriptor hsize₂), context.stackNeed, hbody⟩, hbody⟩

/-! ## Calls in a changed class -/

/-- Two declarations that differ in their attributes only. -/
structure Member.SameDeclaration (m m' : Member) : Prop where
  access : m'.access = m.access
  name : m'.name = m.name
  descriptor : m'.descriptor = m.descriptor

namespace Member.SameDeclaration

variable {m m' m'' : Member}

theorem trans (h : m.SameDeclaration m') (h' : m'.SameDeclaration m'') : m.SameDeclaration m'' :=
  ⟨h'.access.trans h.access, h'.name.trans h.name, h'.descriptor.trans h.descriptor⟩

theorem isStatic (h : m.SameDeclaration m') : m'.isStatic = m.isStatic := congrArg AccessFlags.isStatic h.access

theorem memberName (h : m.SameDeclaration m') (c : ClassFile) : c.memberName m' = c.memberName m :=
  congrArg c.pool.utf8 h.name

theorem memberDescriptor (h : m.SameDeclaration m') (c : ClassFile) : c.memberDescriptor m' = c.memberDescriptor m :=
  congrArg c.pool.utf8 h.descriptor

end Member.SameDeclaration

theorem TargetMethod.Injected.sameDeclaration {P : ConstantPool} {mode : InjectionMode} {steps : List RegistrationStep}
    {t t' : TargetMethod} (h : Injected P mode steps t t') : t.member.SameDeclaration t'.member := by
  obtain ⟨position, content, -, hmember⟩ := h.member
  rw [hmember]
  exact ⟨rfl, rfl, rfl⟩

/-- The class `c'` is the class `c` with constants added, with other method bodies, and with methods that are static
initializers. -/
structure ClassFile.Grows (c c' : ClassFile) : Prop where
  pool : Extends c.pool c'.pool
  access : c'.access = c.access
  methods : ∃ ms extra, c'.methods = ms ++ extra ∧ List.Forall₂ Member.SameDeclaration c.methods ms ∧
    ∀ m ∈ extra, c'.pool.utf8 m.name = .ok ClassFile.staticInitializer ∧ c'.pool.utf8 m.descriptor = .ok "()V"

namespace ClassFile

variable {c c' : ClassFile} {name : String}

theorem Grows.refl (c : ClassFile) : c.Grows c :=
  ⟨.refl, rfl, c.methods, [], (List.append_nil _).symm, List.forall₂_same.2 fun _ _ => ⟨rfl, rfl, rfl⟩, by simp⟩

theorem Grows.trans {c'' : ClassFile} (h : c.Grows c') (h' : c'.Grows c'') : c.Grows c'' := by
  obtain ⟨ms, extra, hms, hsame, hextra⟩ := h.methods
  obtain ⟨ms', extra', hms', hsame', hextra'⟩ := h'.methods
  rw [hms] at hsame'
  obtain ⟨ns, ns', rfl, hns, hns'⟩ := hsame'.of_append_left
  refine ⟨h.pool.trans h'.pool, h'.access.trans h.access, ns, ns' ++ extra', ?_, ?_, fun m hm => ?_⟩
  · rw [hms', List.append_assoc]
  · exact List.forall₂_trans_of (fun _ _ _ hm hm' => hm.trans hm') hsame hns
  · rcases List.mem_append.1 hm with hm | hm
    · obtain ⟨m₀, hm₀, hdeclaration⟩ := hns'.flip.exists_of_mem hm
      obtain ⟨hname, hdescriptor⟩ := hextra m₀ hm₀
      have hname' : m.name = m₀.name := hdeclaration.name
      have hdescriptor' : m.descriptor = m₀.descriptor := hdeclaration.descriptor
      rw [hname', hdescriptor']
      exact ⟨h'.pool.utf8 hname, h'.pool.utf8 hdescriptor⟩
    · exact hextra' m hm

theorem Grows.candidate? (h : c.Grows c') {m m' : Member} (hm : m.SameDeclaration m') {x : Option RegisterCandidate}
    (hx : c.candidate? name m = .ok x) : c'.candidate? name m' = .ok x := by
  simp only [ClassFile.candidate?, Except.bind_eq_ok_iff, Except.mapError_eq_ok_iff] at hx ⊢
  obtain ⟨found, hfound, hx⟩ := hx
  refine ⟨found, (hm.memberName c').trans (h.pool.utf8 hfound), ?_⟩
  split_ifs at hx ⊢ with hne
  · exact hx
  · simp only [Except.bind_eq_ok_iff, Except.mapError_eq_ok_iff] at hx ⊢
    obtain ⟨descriptor, hdescriptor, signature, hsignature, hx⟩ := hx
    refine ⟨descriptor, (hm.memberDescriptor c').trans (h.pool.utf8 hdescriptor), signature, hsignature, ?_⟩
    rw [hm.isStatic]
    exact hx

/-- A static initializer takes no object. -/
theorem candidate?_initializer {m : Member} (hname : c.pool.utf8 m.name = .ok staticInitializer)
    (hdescriptor : c.pool.utf8 m.descriptor = .ok "()V") : c.candidate? name m = .ok none := by
  have hsignature : RegisterSignature.of? "()V" = .ok none := by decide +kernel
  simp only [ClassFile.candidate?, Except.bind_eq_ok_iff, Except.mapError_eq_ok_iff]
  refine ⟨staticInitializer, hname, ?_⟩
  split_ifs with hne
  · rfl
  · simp only [Except.bind_eq_ok_iff, Except.mapError_eq_ok_iff]
    exact ⟨_, hdescriptor, none, hsignature, rfl⟩

theorem Grows.candidates (h : c.Grows c') {found : List RegisterCandidate} (hfound : c.candidates name = .ok found) :
    c'.candidates name = .ok found := by
  obtain ⟨ms, extra, hmethods, hsame, hextra⟩ := h.methods
  simp only [ClassFile.candidates, Except.map_eq_ok_iff, Except.mapM_eq_ok_iff] at hfound ⊢
  obtain ⟨xs, hxs, rfl⟩ := hfound
  have hmember (m' m : Member) (x : Option RegisterCandidate) (hm : m.SameDeclaration m')
      (hx : c.candidate? name m = .ok x) : c'.candidate? name m' = .ok x := h.candidate? hm hx
  have hms := List.forall₂_trans_of hmember hsame.flip hxs
  have hnone : List.Forall₂ (fun m x => c'.candidate? name m = .ok x) extra (extra.map fun _ => none) := by
    rw [List.forall₂_map_right_iff, List.forall₂_same]
    exact fun m hm => candidate?_initializer (hextra m hm).1 (hextra m hm).2
  refine ⟨xs ++ extra.map fun _ => none, ?_, ?_⟩
  · rw [hmethods]
    exact List.rel_append hms hnone
  · simp

end ClassFile

namespace ClassDraft

/-- The steps are those of the calls of a rule. The pool of the class holds their constants. -/
def Registers (d : ClassDraft) (isStatic : Bool) (g : GroupRule) (steps : List RegistrationStep) : Prop :=
  ∃ candidates calls, d.file.candidates g.rule.registerMethod = .ok candidates ∧
    g.matched.toList.mapM (g.rule.call candidates) = .ok calls ∧
    registrationSteps (d.context g.rule isStatic) calls d.file.pool = .ok steps d.file.pool

theorem context_grows {d d' : ClassDraft} (h : d.file.Grows d'.file) (r : Rule) (isStatic : Bool) :
    d'.context r isStatic = d.context r isStatic := by
  rw [context, context, ClassFile.isInterface, ClassFile.isInterface, h.access]

theorem Registers.grows {d d' : ClassDraft} {isStatic : Bool} {g : GroupRule} {steps : List RegistrationStep}
    (hgrows : d.file.Grows d'.file) (h : d.Registers isStatic g steps) : d'.Registers isStatic g steps := by
  obtain ⟨candidates, calls, hcandidates, hcalls, hsteps⟩ := h
  refine ⟨candidates, calls, hgrows.candidates hcandidates, hcalls, ?_⟩
  rw [context_grows hgrows]
  exact (registrationSteps_stable _ _ _ _ _ hsteps).2 _ hgrows.pool

/-! ## One rule -/

/-- The method `t'` is the method `t` with the calls of rules put in at once, in the order of the rules. -/
def Composed (d : ClassDraft) (name : String) (gs : List GroupRule) (t t' : TargetMethod) : Prop :=
  ∃ mode stepss, InjectionMode.select? true t.member.isStatic (name == ClassFile.staticInitializer) = some mode ∧
    List.Forall₂ (d.Registers t.member.isStatic) gs stepss ∧
    TargetMethod.Injected d.file.pool mode stepss.flatten t t'

/-- What rules for the methods with a name make of a class. If there is none, it has a new static initializer. -/
inductive Becomes (name : String) (gs : List GroupRule) (d d' : ClassDraft) : Prop
  | declared : (∃ m ∈ d.file.methods, d.file.memberName m = .ok name) →
      List.Forall₂ (fun t t' => (d.file.memberName t.member = .ok name → d'.Composed name gs t t') ∧
        (d.file.memberName t.member ≠ .ok name → t' = t)) d.methods d'.methods → Becomes name gs d d'
  | synthesized (m : Member) (stepss : List (List RegistrationStep)) :
      (∀ m ∈ d.file.methods, d.file.memberName m ≠ .ok name) → name = ClassFile.staticInitializer →
      d'.methods = d.methods ++ [⟨m, 0⟩] → List.Forall₂ (d'.Registers true) gs stepss →
      m.Initializes d'.file.pool stepss.flatten → Becomes name gs d d'

/-- Each method has a length of calls at its entry. -/
def Aligned (d : ClassDraft) : Prop := d.methods.map (·.member) = d.file.methods

theorem methods_withMethods (d : ClassDraft) (pool : ConstantPool) (ts : List TargetMethod) :
    (d.withMethods pool ts).methods = ts := by
  simp [methods, withMethods, List.zipWith_map, List.zipWith_self]

theorem aligned_withMethods (d : ClassDraft) (pool : ConstantPool) (ts : List TargetMethod) :
    (d.withMethods pool ts).Aligned := by
  rw [Aligned, methods_withMethods]
  rfl

theorem aligned_of (file : ClassFile) : (ClassDraft.of file).Aligned := by
  simp only [Aligned, methods, ClassDraft.of, List.zipWith_map_right, List.zipWith_self, List.map_map]
  exact List.map_id _

variable {d d' : ClassDraft} {r : Rule} {calls : List RegisterCall} {P P' : ConstantPool} {t t' : TargetMethod}

/-- The method `t'` is the method `t` with the calls of one rule. -/
def Called (d : ClassDraft) (r : Rule) (calls : List RegisterCall) (P : ConstantPool) (t t' : TargetMethod) : Prop :=
  ∃ mode steps,
    InjectionMode.select? true t.member.isStatic (r.targetMethod == ClassFile.staticInitializer) = some mode ∧
    registrationSteps (d.context r t.member.isStatic) calls P = .ok steps P ∧ TargetMethod.Injected P mode steps t t'

theorem Called.extends (hext : Extends P P') (h : d.Called r calls P t t') : d.Called r calls P' t t' := by
  obtain ⟨mode, steps, hselect, hsteps, hinjected⟩ := h
  exact ⟨mode, steps, hselect, (registrationSteps_stable _ _ _ _ _ hsteps).2 _ hext, hinjected.extends hext⟩

theorem exists_of_injectMethod (h : d.injectMethod r calls P t = .ok (t', P')) :
    ∃ mode, InjectionMode.select? true t.member.isStatic (r.targetMethod == ClassFile.staticInitializer) = some mode ∧
      t.inject P r.targetMethod mode (d.context r t.member.isStatic) calls = .ok (t', P') := by
  rw [injectMethod] at h
  split at h
  · next hnone =>
    rw [InjectionMode.select?, if_pos rfl] at hnone
    cases hnone
  · next mode hselect =>
    simp only [Except.bind_eq_ok_iff, Except.mapError_eq_ok_iff] at h
    obtain ⟨-, -, h⟩ := h
    exact ⟨mode, hselect, h⟩

theorem injectMethod_ok (h : d.injectMethod r calls P t = .ok (t', P')) : Extends P P' ∧ d.Called r calls P' t t' := by
  obtain ⟨mode, hselect, h⟩ := exists_of_injectMethod h
  obtain ⟨steps, hsteps, hinjected⟩ := TargetMethod.inject_ok h
  obtain ⟨hext, hagain⟩ := registrationSteps_stable _ _ _ _ _ hsteps
  exact ⟨hext, mode, steps, hselect, hagain _ .refl, hinjected⟩

/-- The methods that have the name of the method of a rule are changed one after the other, the others stay. -/
theorem injectMethods_ok {named : List (String × TargetMethod)} {ts : List TargetMethod}
    (h : d.injectMethods r calls P named = .ok (ts, P')) :
    Extends P P' ∧ List.Forall₂ (fun x t' => (x.1 = r.targetMethod → ∃ P₁ P₂,
      d.injectMethod r calls P₁ x.2 = .ok (t', P₂) ∧ Extends P₂ P') ∧ (x.1 ≠ r.targetMethod → t' = x.2)) named ts := by
  induction named generalizing P ts with
  | nil =>
    cases h
    exact ⟨.refl, .nil⟩
  | cons x named ih =>
    obtain ⟨name, t⟩ := x
    by_cases hname : name = r.targetMethod
    · simp only [injectMethods, if_pos hname, Except.bind_eq_ok_iff, Except.pure_eq_ok_iff, Prod.mk.injEq] at h
      obtain ⟨⟨t₁, P₁⟩, ht₁, ⟨ts₁, P₂⟩, hts₁, rfl, rfl⟩ := h
      obtain ⟨hext₁, -⟩ := injectMethod_ok ht₁
      obtain ⟨hext, hrest⟩ := ih hts₁
      exact ⟨hext₁.trans hext, .cons ⟨fun _ => ⟨P, P₁, ht₁, hext⟩, fun hne => absurd hname hne⟩ hrest⟩
    · simp only [injectMethods, if_neg hname, Except.bind_eq_ok_iff, Except.pure_eq_ok_iff, Prod.mk.injEq] at h
      obtain ⟨_, rfl, ⟨ts₁, P₂⟩, hts₁, rfl, rfl⟩ := h
      obtain ⟨hext, hrest⟩ := ih hts₁
      exact ⟨hext, .cons ⟨fun heq => absurd heq hname, fun _ => rfl⟩ hrest⟩

theorem exists_of_synthesize (h : d.synthesize r calls = .ok d') :
    r.targetMethod = ClassFile.staticInitializer ∧ ∃ m P,
      ClassFile.initializer d.file.pool (d.context r true) calls = .ok (m, P) ∧
      d' = d.withMethods P (d.methods ++ [⟨m, 0⟩]) := by
  rw [synthesize] at h
  split at h
  · next hselect =>
    have hname : r.targetMethod = ClassFile.staticInitializer := by
      by_contra hne
      simp [InjectionMode.select?, targetsInitializer, hne] at hselect
    simp only [Except.bind_eq_ok_iff, Except.mapError_eq_ok_iff, Except.pure_eq_ok_iff] at h
    obtain ⟨-, -, ⟨m, P⟩, hm, rfl⟩ := h
    exact ⟨hname, m, P, hm, rfl⟩
  · cases h

theorem synthesize_ok (haligned : d.Aligned) (hsize : d.file.pool.entries.size ≤ ConstantPool.maxEntries)
    (h : d.synthesize r calls = .ok d') :
    d.file.Grows d'.file ∧ d'.Aligned ∧ r.targetMethod = ClassFile.staticInitializer ∧
      ∃ m steps, d'.methods = d.methods ++ [⟨m, 0⟩] ∧
        registrationSteps (d.context r true) calls d'.file.pool = .ok steps d'.file.pool ∧
        m.Initializes d'.file.pool steps := by
  obtain ⟨hname, m, P, hm, rfl⟩ := exists_of_synthesize h
  obtain ⟨steps, hext, hsteps, hinitializes, -⟩ := ClassFile.initializer_ok hsize hm
  refine ⟨⟨hext, rfl, d.file.methods, [m], ?_, List.forall₂_same.2 fun _ _ => ⟨rfl, rfl, rfl⟩, ?_⟩,
    aligned_withMethods _ _ _, hname, m, steps, methods_withMethods _ _ _, hsteps, hinitializes⟩
  · show (d.methods ++ [(⟨m, 0⟩ : TargetMethod)]).map (·.member) = _
    rw [List.map_append, haligned]
    rfl
  · intro m' hm'
    obtain rfl := List.mem_singleton.1 hm'
    exact ⟨hinitializes.name, hinitializes.descriptor⟩

/-- Of the methods of a class, those that have the name of the method of a rule are changed, the others stay. -/
theorem injectMethod_of_injectMethods {names : List String} {ts : List TargetMethod} (haligned : d.Aligned)
    (hnames : List.Forall₂ (fun m name => d.file.memberName m = .ok name) d.file.methods names)
    (h : d.injectMethods r calls d.file.pool (names.zip d.methods) = .ok (ts, P)) :
    Extends d.file.pool P ∧ List.Forall₂ (fun t t' => (d.file.memberName t.member = .ok r.targetMethod → ∃ P₁ P₂,
      d.injectMethod r calls P₁ t = .ok (t', P₂) ∧ Extends P₂ P) ∧
        (d.file.memberName t.member ≠ .ok r.targetMethod → t' = t)) d.methods ts := by
  obtain ⟨hext, hinjected⟩ := injectMethods_ok h
  rw [← haligned, List.forall₂_map_left_iff] at hnames
  refine ⟨hext, (List.forall₂_of_zip hnames hinjected).imp fun t t' ⟨name, hname, hnamed, hother⟩ => ?_⟩
  rw [hname, Except.ok.injEq, ne_eq, Except.ok.injEq]
  exact ⟨hnamed, hother⟩

/-- The methods that have the name of the method of a rule have its calls, the others stay. -/
theorem withMethods_ok {names : List String} {ts : List TargetMethod} (haligned : d.Aligned)
    (hnames : List.Forall₂ (fun m name => d.file.memberName m = .ok name) d.file.methods names)
    (h : d.injectMethods r calls d.file.pool (names.zip d.methods) = .ok (ts, P)) :
    d.file.Grows (d.withMethods P ts).file ∧
      List.Forall₂ (fun t t' => (d.file.memberName t.member = .ok r.targetMethod → d.Called r calls P t t') ∧
        (d.file.memberName t.member ≠ .ok r.targetMethod → t' = t)) d.methods ts := by
  obtain ⟨hext, hinjected⟩ := injectMethod_of_injectMethods haligned hnames h
  have hmethods : List.Forall₂ (fun t t' => (d.file.memberName t.member = .ok r.targetMethod →
      d.Called r calls P t t') ∧ (d.file.memberName t.member ≠ .ok r.targetMethod → t' = t)) d.methods ts := by
    refine hinjected.imp fun t t' ⟨hnamed, hother⟩ => ⟨fun hname => ?_, hother⟩
    obtain ⟨P₁, P₂, hinject, hext₂⟩ := hnamed hname
    exact (injectMethod_ok hinject).2.extends hext₂
  refine ⟨⟨hext, rfl, ts.map (·.member), [], (List.append_nil _).symm, ?_, by simp⟩, hmethods⟩
  rw [← haligned, List.forall₂_map_left_iff, List.forall₂_map_right_iff]
  refine hmethods.imp fun t t' ⟨hnamed, hother⟩ => ?_
  by_cases hname : d.file.memberName t.member = .ok r.targetMethod
  · obtain ⟨mode, steps, -, -, hinjected⟩ := hnamed hname
    exact hinjected.sameDeclaration
  · rw [hother hname]
    exact ⟨rfl, rfl, rfl⟩

/-- What a rule that goes through does: it finds its calls and the names of the methods, and changes those that have the
name given by it, or adds a method. -/
theorem exists_of_inject {matched : NameSet} {injection : RuleInjection}
    (h : d.inject r matched = .ok (d', injection)) :
    ∃ candidates calls names, d.file.candidates r.registerMethod = .ok candidates ∧
      matched.toList.mapM (r.call candidates) = .ok calls ∧
      List.Forall₂ (fun m name => d.file.memberName m = .ok name) d.file.methods names ∧
      (names.count r.targetMethod = 0 ∧ d.synthesize r calls = .ok d' ∨
        names.count r.targetMethod ≠ 0 ∧ ∃ ts P,
          d.injectMethods r calls d.file.pool (names.zip d.methods) = .ok (ts, P) ∧ d' = d.withMethods P ts) := by
  simp only [inject, Except.bind_eq_ok_iff, Except.mapError_eq_ok_iff] at h
  obtain ⟨candidates, hcandidates, calls, hcalls, names, hnames, h⟩ := h
  refine ⟨candidates, calls, names, hcandidates, hcalls, Except.mapM_eq_ok_iff.1 hnames, ?_⟩
  split_ifs at h with hcount
  · simp only [Except.bind_eq_ok_iff, Except.pure_eq_ok_iff, Prod.mk.injEq] at h
    obtain ⟨_, hsynthesize, rfl, -⟩ := h
    exact Or.inl ⟨hcount, hsynthesize⟩
  · simp only [Except.bind_eq_ok_iff, Except.pure_eq_ok_iff, Prod.mk.injEq] at h
    obtain ⟨⟨ts, P⟩, hts, rfl, -⟩ := h
    exact Or.inr ⟨hcount, ts, P, hts, rfl⟩

theorem inject_ok {g : GroupRule} {injection : RuleInjection} (haligned : d.Aligned)
    (hsize : d.file.pool.entries.size ≤ ConstantPool.maxEntries)
    (h : d.inject g.rule g.matched = .ok (d', injection)) :
    d.file.Grows d'.file ∧ d'.Aligned ∧ (∀ m ∈ d.file.methods, ∃ name, d.file.memberName m = .ok name) ∧
      Becomes g.rule.targetMethod [g] d d' := by
  obtain ⟨candidates, calls, names, hcandidates, hcalls, hnames, h⟩ := exists_of_inject h
  have hresolved : ∀ m ∈ d.file.methods, ∃ name ∈ names, d.file.memberName m = .ok name := fun m hm =>
    hnames.exists_of_mem hm
  have hmem : g.rule.targetMethod ∈ names ↔ ∃ m ∈ d.file.methods, d.file.memberName m = .ok g.rule.targetMethod := by
    constructor
    · exact fun hname => hnames.flip.exists_of_mem hname
    · rintro ⟨m, hm, hname⟩
      obtain ⟨name, hname', heq⟩ := hresolved m hm
      rw [hname, Except.ok.injEq] at heq
      rwa [heq]
  have hregisters (hgrows : d.file.Grows d'.file) {isStatic : Bool} {steps : List RegistrationStep}
      (hsteps : registrationSteps (d.context g.rule isStatic) calls d'.file.pool = .ok steps d'.file.pool) :
      List.Forall₂ (d'.Registers isStatic) [g] [steps] :=
    .cons ⟨candidates, calls, hgrows.candidates hcandidates, hcalls,
      by rwa [context_grows hgrows]⟩ .nil
  rcases h with ⟨hcount, hsynthesize⟩ | ⟨hcount, ts, P, hts, rfl⟩
  · obtain ⟨hgrows, haligned', hname, m, steps, hmethods, hsteps, hinitializes⟩ :=
      synthesize_ok haligned hsize hsynthesize
    refine ⟨hgrows, haligned', fun m hm => (hresolved m hm).imp fun _ h => h.2,
      .synthesized m [steps] (fun m hm hname => ?_) hname hmethods (hregisters hgrows hsteps) ?_⟩
    · exact List.count_eq_zero.1 hcount (hmem.2 ⟨m, hm, hname⟩)
    · rwa [List.flatten_cons, List.flatten_nil, List.append_nil]
  · obtain ⟨hgrows, hmethods⟩ := withMethods_ok haligned hnames hts
    refine ⟨hgrows, aligned_withMethods _ _ _, fun m hm => (hresolved m hm).imp fun _ h => h.2,
      .declared (hmem.1 (List.count_pos_iff.1 (Nat.pos_of_ne_zero hcount))) ?_⟩
    rw [methods_withMethods]
    refine hmethods.imp fun t t' ⟨hnamed, hother⟩ => ⟨fun hname => ?_, hother⟩
    obtain ⟨mode, steps, hselect, hsteps, hinjected⟩ := hnamed hname
    refine ⟨mode, [steps], hselect, hregisters hgrows hsteps, ?_⟩
    rwa [List.flatten_cons, List.flatten_nil, List.append_nil]

/-! ## One rule after the other -/

variable {d₁ d₂ : ClassDraft} {name : String} {gs gs' : List GroupRule}

theorem Composed.trans {t₁ t₂ : TargetMethod} (hgrows : d₁.file.Grows d₂.file) (hzero : t.entryLength = 0)
    (h₁ : d₁.Composed name gs t t₁) (h₂ : d₂.Composed name gs' t₁ t₂) : d₂.Composed name (gs ++ gs') t t₂ := by
  obtain ⟨mode, stepss, hselect, hstepss, hinjected⟩ := h₁
  obtain ⟨mode', stepss', hselect', hstepss', hinjected'⟩ := h₂
  rw [hinjected.sameDeclaration.isStatic] at hselect' hstepss'
  obtain rfl : mode = mode' := Option.some.inj (hselect.symm.trans hselect')
  refine ⟨mode, stepss ++ stepss', hselect, List.rel_append (hstepss.imp fun _ _ h => h.grows hgrows) hstepss', ?_⟩
  rw [List.flatten_append]
  exact (hinjected.extends hgrows.pool).trans hzero hinjected'

theorem Composed.memberName (hext : Extends d.file.pool d₁.file.pool) (h : d'.Composed name gs t t')
    {text : String} (ht : d.file.memberName t.member = .ok text) : d₁.file.memberName t'.member = .ok text := by
  obtain ⟨mode, stepss, -, -, hinjected⟩ := h
  exact (hinjected.sameDeclaration.memberName d₁.file).trans (hext.utf8 ht)

/-- Calls that are put into a static initializer of calls go behind these. -/
theorem Composed.initializes {m : Member} {steps : List RegistrationStep} (hname : name = ClassFile.staticInitializer)
    (hinitializes : m.Initializes d.file.pool steps) (h : d.Composed name gs ⟨m, 0⟩ t) :
    ∃ stepss, List.Forall₂ (d.Registers true) gs stepss ∧
      t.member.Initializes d.file.pool (steps ++ stepss.flatten) ∧ t.entryLength = 0 := by
  obtain ⟨mode, stepss, hselect, hstepss, hinjected⟩ := h
  have hstatic : m.isStatic = true := by
    rw [Member.isStatic, hinitializes.access]
    rfl
  have hexit : mode = .exit := by simpa [InjectionMode.select?, hname, eq_comm] using hselect
  subst hexit
  rw [hstatic] at hstepss
  exact ⟨stepss, hstepss, hinitializes.inject hinjected⟩

theorem Aligned.mem (h : d.Aligned) {m : Member} : m ∈ d.file.methods ↔ ∃ t ∈ d.methods, t.member = m := by
  rw [← h, List.mem_map]

/-- Rules after other rules are all of them. -/
theorem Becomes.trans (haligned : d.Aligned) (haligned₁ : d₁.Aligned) (hext : Extends d.file.pool d₁.file.pool)
    (hgrows : d₁.file.Grows d₂.file) (hnames : ∀ m ∈ d.file.methods, ∃ text, d.file.memberName m = .ok text)
    (hzero : ∀ t ∈ d.methods, t.entryLength = 0) (h₁ : Becomes name gs d d₁) (h₂ : Becomes name gs' d₁ d₂) :
    Becomes name (gs ++ gs') d d₂ := by
  have hother {t : TargetMethod} (ht : t ∈ d.methods) (hne : d.file.memberName t.member ≠ .ok name) :
      d₁.file.memberName t.member ≠ .ok name := by
    obtain ⟨text, htext⟩ := hnames t.member (haligned.mem.2 ⟨t, ht, rfl⟩)
    have htext₁ : d₁.file.memberName t.member = .ok text := hext.utf8 htext
    rw [htext] at hne
    rwa [htext₁]
  cases h₁ with
  | declared hdeclared hmethods =>
    cases h₂ with
    | declared _ hmethods' =>
      refine .declared hdeclared (List.forall₂_trans_of (fun t t₁ t₂ h h' => ?_) hmethods.with_mem hmethods')
      obtain ⟨ht, hnamed, hstay⟩ := h
      obtain ⟨hnamed', hstay'⟩ := h'
      constructor
      · intro hname
        have hcomposed := hnamed hname
        exact hcomposed.trans hgrows (hzero t ht) (hnamed' (hcomposed.memberName hext hname))
      · intro hne
        obtain rfl := hstay hne
        exact hstay' (hother ht hne)
    | synthesized _ _ hmissing =>
      obtain ⟨m, hm, hname⟩ := hdeclared
      obtain ⟨t, ht, rfl⟩ := haligned.mem.1 hm
      obtain ⟨t₁, ht₁, hnamed, -⟩ := hmethods.exists_of_mem ht
      exact absurd ((hnamed hname).memberName hext hname) (hmissing t₁.member (haligned₁.mem.2 ⟨t₁, ht₁, rfl⟩))
  | synthesized m stepss hmissing hname hmethods hstepss hinitializes =>
    have hm : d₁.file.memberName m = .ok name := by
      rw [hname]
      exact hinitializes.name
    cases h₂ with
    | declared _ hmethods' =>
      rw [hmethods] at hmethods'
      obtain ⟨ts, t, hts, hstay, hnamed, -⟩ := hmethods'.of_concat_left
      obtain ⟨stepss', hstepss', hinitializes', hlength⟩ :=
        (hnamed hm).initializes hname (hinitializes.extends hgrows.pool)
      have hts' : d.methods = ts := by
        rw [← List.forall₂_eq_eq_eq]
        refine hstay.with_mem.imp fun t t' ⟨ht, _, h⟩ => ?_
        exact (h (hother ht (hmissing t.member (haligned.mem.2 ⟨t, ht, rfl⟩)))).symm
      refine .synthesized t.member (stepss ++ stepss') hmissing hname ?_
        (List.rel_append (hstepss.imp fun _ _ h => h.grows hgrows) hstepss') ?_
      · rw [hts, hts', ← hlength]
      · rwa [List.flatten_append]
    | synthesized _ _ hmissing' =>
      exact absurd hm (hmissing' m (haligned₁.mem.2 ⟨⟨m, 0⟩, by simp [hmethods], rfl⟩))

/-- What is recorded as standing at an entry ends in front of an instruction. -/
theorem Becomes.exists_offset_eq_entryLength (h : Becomes name gs d d') (hzero : ∀ t ∈ d.methods, t.entryLength = 0)
    (ht' : t' ∈ d'.methods) (hpos : 0 < t'.entryLength) :
    ∃ body code, t'.member.HasBody d'.file.pool body ∧ Placed.decodeAll body.code = .ok code ∧
      ∃ p ∈ code, p.offset = t'.entryLength := by
  have hold : t' ∉ d.methods := fun ht => Nat.ne_of_gt hpos (hzero t' ht)
  cases h with
  | declared _ hmethods =>
    obtain ⟨t, ht, hnamed, hother⟩ := hmethods.flip.exists_of_mem ht'
    by_cases hname : d.file.memberName t.member = .ok name
    · obtain ⟨mode, stepss, -, -, hinjected⟩ := hnamed hname
      cases mode with
      | entry => exact hinjected.exists_offset_eq_entryLength (hzero t ht)
      | exit =>
        have hlength : t'.entryLength = t.entryLength := hinjected.entryLength
        rw [hlength, hzero t ht] at hpos
        cases hpos
      | synthesize => exact absurd rfl hinjected.isDeclared
    · rw [hother hname] at hold
      exact absurd ht hold
  | synthesized m _ _ _ hmethods =>
    rw [hmethods, List.mem_append, List.mem_singleton] at ht'
    rcases ht' with ht | rfl
    · exact absurd ht hold
    · cases hpos

theorem becomes_injectRules_of {results : GroupResults} (haligned : d.Aligned)
    (hsize : d.file.pool.entries.size ≤ ConstantPool.maxEntries)
    (hnames : ∀ m ∈ d.file.methods, ∃ text, d.file.memberName m = .ok text)
    (hzero : ∀ t ∈ d.methods, t.entryLength = 0) (haligned₁ : d₁.Aligned) (hext : Extends d.file.pool d₁.file.pool)
    (h₁ : Becomes name gs d d₁) (hname : ∀ g ∈ gs', g.rule.targetMethod = name)
    (h : d₁.injectRules gs' = (d₂, results)) (hok : ∀ r ∈ results, r.2.isOk = true) :
    d₂.Aligned ∧ Becomes name (gs ++ gs') d d₂ := by
  induction gs' generalizing d₁ gs results with
  | nil =>
    cases h
    rw [List.append_nil]
    exact ⟨haligned₁, h₁⟩
  | cons g gs' ih =>
    rw [injectRules] at h
    split at h
    · next d' injection hinject =>
      cases h
      obtain ⟨hgrows, haligned', -, hbecomes⟩ := inject_ok haligned₁ (hext.size_le hsize) hinject
      rw [hname g List.mem_cons_self] at hbecomes
      have := ih haligned' (hext.trans hgrows.pool) (h₁.trans haligned haligned₁ hext hgrows hnames hzero hbecomes)
        (fun g hg => hname g (List.mem_cons_of_mem _ hg)) rfl fun r hr => hok r (List.mem_cons_of_mem _ hr)
      rwa [List.append_assoc] at this
    · next hinject =>
      cases h
      have := hok _ List.mem_cons_self
      cases this

end ClassDraft

/-! ## A class that is read -/

theorem ConstantPool.size_le_of_decode {pool : ConstantPool} {input rest : List UInt8}
    (h : decode input = .ok (pool, rest)) : pool.entries.size ≤ maxEntries := by
  simp only [decode, Decoder.bind_eq_ok_iff] at h
  obtain ⟨count, _, -, entries, _, -, h⟩ := h
  split_ifs at h with hsize
  · cases h
    show entries.size ≤ maxEntries
    rw [hsize]
    exact Nat.le_of_lt_succ count.toNat_lt
  · cases h

theorem ClassFile.size_pool_le {bytes : List UInt8} {file : ClassFile} (h : decode bytes = .ok file) :
    file.pool.entries.size ≤ ConstantPool.maxEntries := by
  rw [decode] at h
  split at h
  · cases h
  · next hfront =>
    cases h
    simp only [decodeFront, Decoder.bind_eq_ok_iff] at hfront
    obtain ⟨found, _, -, hfront⟩ := hfront
    split_ifs at hfront with hmagic
    · simp only [Decoder.bind_eq_ok_iff] at hfront
      obtain ⟨_, _, hfail, -⟩ := hfront
      cases hfail
    · simp only [Decoder.bind_eq_ok_iff] at hfront
      obtain ⟨_, _, -, _, _, -, pool, _, hpool, _, _, -, _, _, -, _, _, -, _, _, -, _, _, -, _, _, -, _, _, -, h⟩ :=
        hfront
      cases h
      unfold Decoder.within at hpool
      split at hpool
      · next hdecode =>
        cases hpool
        exact ConstantPool.size_le_of_decode hdecode
      · cases hpool
  · cases h

/-- Two rules that put calls of `r` into the static initializer. -/
def registryRules : List GroupRule := [⟨0, registryRule, .ofList ["B"]⟩, ⟨1, registryRule, .ofList ["C"]⟩]

/-- The bytes of the class with the initializer. -/
def registryBytes : List UInt8 :=
  match registryFile.encode with
  | .ok bytes => bytes
  | .error _ => []

/-- **The order of rules.** Where all rules for the methods with one name succeed, one after the other, each of these
methods is as if the calls of all rules had been put in at once, in the order of the rules: in front of its returns, or
in front of its first instruction. If there was no such method, all calls stand in front of the return of a new static
initializer. The length that is recorded for an entry ends in front of an instruction. -/
theorem ClassDraft.becomes_injectRules {bytes : List UInt8} {file : ClassFile} {name : String} {gs : List GroupRule}
    {d : ClassDraft} {results : GroupResults} (hfile : ClassFile.decode bytes = .ok file) (hgs : gs ≠ [])
    (hname : ∀ g ∈ gs, g.rule.targetMethod = name) (h : (ClassDraft.of file).injectRules gs = (d, results))
    (hok : ∀ r ∈ results, r.2.isOk = true) :
    d.methods.map (·.member) = d.file.methods ∧ (∀ t ∈ (ClassDraft.of file).methods, t.entryLength = 0) ∧
      Becomes name gs (ClassDraft.of file) d ∧ ∀ t ∈ d.methods, 0 < t.entryLength → ∃ body code, t.member.HasBody d.file.pool body ∧
        Placed.decodeAll body.code = .ok code ∧ ∃ p ∈ code, p.offset = t.entryLength := by
  have hzero : ∀ t ∈ (ClassDraft.of file).methods, t.entryLength = 0 := fun t ht => entryLength_of ht
  obtain ⟨haligned, hbecomes⟩ : d.Aligned ∧ Becomes name gs (ClassDraft.of file) d := by
    obtain ⟨g, gs, rfl⟩ := List.exists_cons_of_ne_nil hgs
    rw [injectRules] at h
    split at h
    · next d₁ injection hinject =>
      cases h
      have hsize := ClassFile.size_pool_le hfile
      obtain ⟨hgrows, haligned₁, hnames, hfirst⟩ := inject_ok (aligned_of file) hsize hinject
      rw [hname g List.mem_cons_self] at hfirst
      exact becomes_injectRules_of (aligned_of file) hsize hnames hzero haligned₁ hgrows.pool hfirst
        (fun g hg => hname g (List.mem_cons_of_mem _ hg)) rfl fun r hr => hok r (List.mem_cons_of_mem _ hr)
    · next hinject =>
      cases h
      have := hok _ List.mem_cons_self
      cases this
  exact ⟨haligned, hzero, hbecomes, fun t ht hpos => hbecomes.exists_offset_eq_entryLength hzero ht hpos⟩

theorem ClassDraft.becomes_injectRules_registry :
    ((ClassDraft.of registryFile).injectRules registryRules).1.methods.map (·.member) =
        ((ClassDraft.of registryFile).injectRules registryRules).1.file.methods ∧
      (∀ t ∈ (ClassDraft.of registryFile).methods, t.entryLength = 0) ∧
      Becomes ClassFile.staticInitializer registryRules (ClassDraft.of registryFile)
        ((ClassDraft.of registryFile).injectRules registryRules).1 ∧
      ∀ t ∈ ((ClassDraft.of registryFile).injectRules registryRules).1.methods, 0 < t.entryLength →
        ∃ body code, t.member.HasBody ((ClassDraft.of registryFile).injectRules registryRules).1.file.pool body ∧
          Placed.decodeAll body.code = .ok code ∧ ∃ p ∈ code, p.offset = t.entryLength := by
  have hfile : ClassFile.decode registryBytes = .ok registryFile := by decide +kernel
  have hok : ∀ r ∈ ((ClassDraft.of registryFile).injectRules registryRules).2, r.2.isOk = true := by decide +kernel
  have hname : ∀ g ∈ registryRules, g.rule.targetMethod = ClassFile.staticInitializer := by
    intro g hg
    rcases List.mem_pair.1 hg with rfl | rfl <;> rfl
  exact becomes_injectRules hfile (by simp [registryRules]) hname rfl hok

end Registrar
