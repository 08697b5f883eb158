import Registrar.Proofs.Rewriting

/-!
# What a rule leaves alone

* `Attribute.Kept` : nested attributes of which annotations may be dropped and only tables may be rewritten.
  `kept_of_allMoved` : code that is put in does no more to them;
* `MethodBody.Framed`, `Member.Framed` : what stays of a body into which calls are put, and of its method.
  `TargetMethod.Injected.framed` : steps put into a method leave that much;
* `Member.IsInitializer` : a static initializer that a rule adds;
* `ClassFile.Framed` : what stays of a class to which a rule is applied. `ClassDraft.framed_of_inject` : all of that
  does.
-/

namespace Registrar

open ConstantPool (Extends)

/-! ## Pools -/

theorem ConstantPool.Extends.isPrefix {P Q : ConstantPool} (h : Extends P Q) :
    P.entries.toList <+: Q.entries.toList := by
  induction h with
  | refl => exact List.prefix_rfl
  | push _ _ _ _ ih =>
    rw [Array.toList_push]
    exact ih.trans (List.prefix_append _ _)

/-! ## Bodies -/

namespace Attribute

/-- The names of the tables whose offsets are moved along with code. -/
def tableNames : List String := "LineNumberTable" :: stackMapName :: variableNames

/-- Attributes and what is left of them. Only tables have other contents, and only annotations are missing. -/
inductive Kept (pool : ConstantPool) : List Attribute → List Attribute → Prop
  | nil : Kept pool [] []
  | same {a : Attribute} {as as' : List Attribute} : Kept pool as as' → Kept pool (a :: as) (a :: as')
  | table {a : Attribute} {as as' : List Attribute} (content : List UInt8) :
      (∃ name ∈ tableNames, pool.utf8 a.name = .ok name) → Kept pool as as' →
      Kept pool (a :: as) ({ a with content } :: as')
  | dropped {a : Attribute} {as as' : List Attribute} : a.IsAnnotation pool → Kept pool as as' →
      Kept pool (a :: as) as'

theorem kept_of_allMoved {pool : ConstantPool} {R : Relocation} {as as' : List Attribute} (h : AllMoved pool R as as') :
    Kept pool as as' := by
  induction h with
  | nil => exact .nil
  | @kept a a' as as' ha _ ih =>
    obtain ⟨name, hname, heq, hcontent⟩ := ha
    obtain ⟨_, content⟩ := a'
    obtain rfl : _ = a.name := heq
    by_cases htable : name ∈ tableNames
    · exact .table content ⟨name, htable, hname⟩ ih
    · have hcontent' : content = a.content := by
        unfold ContentMoved at hcontent
        simp only [tableNames, List.mem_cons, not_or] at htable
        rw [if_neg htable.1, if_neg htable.2.2, if_neg htable.2.1] at hcontent
        exact hcontent.2
      subst hcontent'
      exact .same ih
  | dropped ha _ ih => exact .dropped ha ih

end Attribute

/-- What stays of a body into which code is put: the local variables, the number of the handlers, and the nested
attributes but for tables and annotations. -/
structure MethodBody.Framed (pool : ConstantPool) (body body' : MethodBody) : Prop where
  maxLocals : body'.maxLocals = body.maxLocals
  handlers : body'.handlers.length = body.handlers.length
  attributes : Attribute.Kept pool body.attributes body'.attributes

theorem MethodBody.framed_of_insert {pool : ConstantPool} {body moved : MethodBody} {insertions : List Insertion}
    (h : body.insert insertions pool = .ok moved) (maxStack : UInt16) : body.Framed pool { moved with maxStack } := by
  obtain ⟨ss, -, -, htables⟩ := insert_eq_ok_iff.1 h
  exact ⟨htables.maxLocals, htables.handlers.length_eq.symm, Attribute.kept_of_allMoved htables.attributes⟩

/-! ## Methods -/

/-- What stays of a method into which calls are put: its declaration, and all attributes but the content of the first
one with the name `Code`. Names are those in the new pool; where the old pool knew the body, it is the same one. -/
structure Member.Framed (pool pool' : ConstantPool) (m m' : Member) : Prop where
  declaration : m.SameDeclaration m'
  attributes : ∃ before a after content body body', m.attributes = before ++ a :: after ∧
    m'.attributes = before ++ { a with content } :: after ∧
    pool'.utf8 a.name = .ok codeName ∧ (∀ b ∈ before, pool'.utf8 b.name ≠ .ok codeName) ∧
    ((∃ b ∈ m.attributes, pool.utf8 b.name = .ok codeName) → pool.utf8 a.name = .ok codeName) ∧
    MethodBody.decode a.content = .ok body ∧ MethodBody.decode content = .ok body' ∧ body.Framed pool' body'

/-- The method is a static initializer that holds nothing but straight code. -/
structure Member.IsInitializer (pool : ConstantPool) (m : Member) : Prop where
  access : m.access = .static
  name : pool.utf8 m.name = .ok ClassFile.staticInitializer
  descriptor : pool.utf8 m.descriptor = .ok "()V"
  attributes : ∃ a body, m.attributes = [a] ∧ pool.utf8 a.name = .ok codeName ∧ MethodBody.decode a.content = .ok body ∧
    body.maxLocals = 0 ∧ body.handlers = [] ∧ body.attributes = []

/-- The attributes in front of the first one with a name, and those behind it. -/
theorem Member.exists_split_of_attributePosition {m : Member} {pool : ConstantPool} {name : String} {position : Nat}
    (h : m.attributePosition pool name = some position) :
    ∃ before a after, m.attributes = before ++ a :: after ∧ before.length = position ∧ pool.utf8 a.name = .ok name ∧
      ∀ b ∈ before, pool.utf8 b.name ≠ .ok name := by
  obtain ⟨hlt, hnamed, hbefore⟩ := List.findIdx?_eq_some_iff_getElem.1 h
  refine ⟨m.attributes.take position, m.attributes[position], m.attributes.drop (position + 1), ?_, ?_,
    Attribute.isNamed_iff.1 hnamed, ?_⟩
  · rw [List.getElem_cons_drop, List.take_append_drop]
  · rw [List.length_take]
    omega
  · intro b hb hname
    obtain ⟨i, hi, rfl⟩ := List.getElem_of_mem hb
    rw [List.length_take] at hi
    rw [List.getElem_take] at hname
    exact hbefore i (by omega) (Attribute.isNamed_iff.2 hname)

namespace TargetMethod

theorem attributes_withContent {m : Member} {before after : List Attribute} {a : Attribute}
    (h : m.attributes = before ++ a :: after) (content : List UInt8) :
    (withContent m before.length content).attributes = before ++ { a with content } :: after := by
  show m.attributes.modify before.length _ = _
  rw [h, List.modify_eq_take_cons_drop (by simp)]
  simp

theorem Injected.framed {P P' : ConstantPool} {mode : InjectionMode} {steps : List RegistrationStep}
    {t t' : TargetMethod} (hext : Extends P P') (h : Injected P' mode steps t t') :
    t.member.Framed P P' t'.member := by
  obtain ⟨position, content, hposition, hmember⟩ := h.member
  obtain ⟨body, code, moved, maxStack, hbody, -, hmoved, -, hbody'⟩ := h.body
  obtain ⟨before, a, after, hsplit, rfl, hname, hfirst⟩ := Member.exists_split_of_attributePosition hposition
  have hsplit' : t'.member.attributes = before ++ { a with content } :: after := by
    rw [hmember]
    exact attributes_withContent hsplit content
  have hposition' : t'.member.attributePosition P' codeName = some before.length := by
    rw [hmember, Member.attributePosition_congr P' codeName (map_name_withContent _ _ _)]
    exact hposition
  have hdecode {m : Member} {x : Attribute} {b : MethodBody} (hm : m.attributes = before ++ x :: after)
      (hpos : m.attributePosition P' codeName = some before.length) (hb : m.HasBody P' b) :
      MethodBody.decode x.content = .ok b := by
    obtain ⟨position, y, hy, hat, hb⟩ := hb
    rw [hpos] at hy
    cases hy
    rw [hm, List.getElem?_append_right (Nat.le_refl _), Nat.sub_self] at hat
    cases hat
    exact hb
  refine ⟨h.sameDeclaration, before, a, after, content, body, _, hsplit, hsplit', hname, hfirst, ?_,
    hdecode hsplit hposition hbody, hdecode hsplit' hposition' hbody', MethodBody.framed_of_insert hmoved maxStack⟩
  -- A name that the old pool knows is not added once more.
  rintro ⟨b, -, hb⟩
  obtain ⟨e, he, htext⟩ := ConstantPool.utf8_eq_ok_iff.1 hb
  have hnamed := Member.isNamed_extends hext ⟨e, Array.mem_of_getElem? he, htext⟩
  rw [← Attribute.isNamed_iff, ← hnamed]
  exact Attribute.isNamed_iff.2 hname

end TargetMethod

theorem Member.Initializes.isInitializer {P : ConstantPool} {steps : List RegistrationStep} {m : Member}
    (h : m.Initializes P steps) (hlength : m.attributes.length = 1) : m.IsInitializer P := by
  obtain ⟨maxStack, position, a, hposition, ha, hbody⟩ := h.body
  obtain ⟨only, honly⟩ := List.length_eq_one_iff.1 hlength
  obtain ⟨before, x, after, hsplit, rfl, hname, -⟩ := Member.exists_split_of_attributePosition hposition
  rw [hsplit, List.getElem?_append_right (Nat.le_refl _), Nat.sub_self] at ha
  obtain rfl : x = a := Option.some.inj ha
  rw [honly] at hsplit
  obtain ⟨rfl, rfl, rfl⟩ : before = [] ∧ x = only ∧ after = [] := by
    cases before with
    | nil =>
      cases hsplit
      exact ⟨rfl, rfl, rfl⟩
    | cons _ _ => simp at hsplit
  exact ⟨h.access, h.name, h.descriptor, x, _, honly, hname, hbody, rfl, rfl, rfl⟩

/-! ## Classes -/

/-- What stays of a class to which a rule for the methods with a name is applied. Its pool only grows, and the rest of
it is the same but for methods. Of these, the ones with another name are the same, and the others have the same
declaration and other code. A new method stands behind them just if no method had the name, and the name is that of a
static initializer; then it is one. -/
structure ClassFile.Framed (name : String) (c c' : ClassFile) : Prop where
  pool : c.pool.entries.toList <+: c'.pool.entries.toList
  rest : c' = { c with pool := c'.pool, methods := c'.methods }
  methods : ∃ ms added, c'.methods = ms ++ added ∧
    List.Forall₂ (fun m m' => (c.memberName m ≠ .ok name → m' = m) ∧
      (c.memberName m = .ok name → m.Framed c.pool c'.pool m')) c.methods ms ∧
    (added = [] ∨ ∃ m, added = [m] ∧ m.IsInitializer c'.pool) ∧
    (added ≠ [] ↔ (∀ m ∈ c.methods, c.memberName m ≠ .ok name) ∧ name = staticInitializer)

namespace ClassDraft

theorem framed_of_synthesize {d d' : ClassDraft} {r : Rule} {calls : List RegisterCall} (haligned : d.Aligned)
    (hsize : d.file.pool.entries.size ≤ ConstantPool.maxEntries)
    (hmissing : ∀ m ∈ d.file.methods, d.file.memberName m ≠ .ok r.targetMethod)
    (h : d.synthesize r calls = .ok d') : d.file.Framed r.targetMethod d'.file := by
  obtain ⟨hgrows, haligned', hname, m, steps, hmethods, -, hinitializes⟩ := synthesize_ok haligned hsize h
  obtain ⟨-, new, P, hnew, rfl⟩ := exists_of_synthesize h
  have hfile : (d.withMethods P (d.methods ++ [⟨new, 0⟩])).file.methods = d.file.methods ++ [new] := by
    rw [← haligned', methods_withMethods, List.map_append, haligned]
    rfl
  obtain rfl : new = m := by
    rw [methods_withMethods] at hmethods
    have hlast := List.append_cancel_left hmethods
    simpa using hlast
  have hlength := ClassFile.length_attributes_of_initializer hnew
  refine ⟨hgrows.pool.isPrefix, rfl, d.file.methods, [new], hfile, ?_, Or.inr ⟨new, rfl, ?_⟩, ?_⟩
  · refine List.forall₂_same.2 fun m hm => ⟨fun _ => rfl, fun hnamed => absurd hnamed (hmissing m hm)⟩
  · exact hinitializes.isInitializer hlength
  · exact iff_of_true (List.cons_ne_nil _ _) ⟨hmissing, hname⟩

theorem framed_of_injectMethods {d : ClassDraft} {r : Rule} {calls : List RegisterCall} {names : List String}
    {ts : List TargetMethod} {P : ConstantPool} (haligned : d.Aligned)
    (hnames : List.Forall₂ (fun m name => d.file.memberName m = .ok name) d.file.methods names)
    (hdeclared : ∃ m ∈ d.file.methods, d.file.memberName m = .ok r.targetMethod)
    (h : d.injectMethods r calls d.file.pool (names.zip d.methods) = .ok (ts, P)) :
    d.file.Framed r.targetMethod (d.withMethods P ts).file := by
  obtain ⟨hgrows, hmethods⟩ := withMethods_ok haligned hnames h
  refine ⟨hgrows.pool.isPrefix, rfl, ts.map (·.member), [], (List.append_nil _).symm, ?_, Or.inl rfl, ?_⟩
  · rw [← haligned, List.forall₂_map_left_iff, List.forall₂_map_right_iff]
    refine hmethods.imp fun t t' ⟨hnamed, hother⟩ => ⟨fun hne => ?_, fun hname => ?_⟩
    · rw [hother hne]
    · obtain ⟨mode, steps, -, -, hinjected⟩ := hnamed hname
      exact hinjected.framed hgrows.pool
  · apply iff_of_false (fun h => h rfl)
    rintro ⟨hmissing, -⟩
    obtain ⟨m, hm, hname⟩ := hdeclared
    exact hmissing m hm hname

/-- Some name is counted just if it is the name of a method. -/
theorem count_names_eq_zero_iff {c : ClassFile} {names : List String} {name : String}
    (hnames : List.Forall₂ (fun m text => c.memberName m = .ok text) c.methods names) :
    names.count name = 0 ↔ ∀ m ∈ c.methods, c.memberName m ≠ .ok name := by
  rw [List.count_eq_zero]
  constructor
  · intro hnot m hm hname
    obtain ⟨text, htext, heq⟩ := hnames.exists_of_mem hm
    rw [hname, Except.ok.injEq] at heq
    exact hnot (heq ▸ htext)
  · intro hmissing hmem
    obtain ⟨m, hm, hname⟩ := hnames.flip.exists_of_mem hmem
    exact hmissing m hm hname

/-- **What a rule leaves alone.** Whatever is recorded as standing at the entries of its methods, a class to which a
rule is applied keeps its pool, its header, its fields, its attributes and its methods, but for the code of the methods
that have the name given by the rule. -/
theorem framed_of_inject {bytes : List UInt8} {file : ClassFile} {lengths : List Nat} {d' : ClassDraft} {r : Rule}
    {matched : NameSet} {injection : RuleInjection} (hfile : ClassFile.decode bytes = .ok file)
    (hlengths : lengths.length = file.methods.length)
    (h : (⟨file, lengths⟩ : ClassDraft).inject r matched = .ok (d', injection)) :
    file.Framed r.targetMethod d'.file := by
  have haligned := aligned_mk hlengths
  have hsize := ClassFile.size_pool_le hfile
  obtain ⟨_, calls, names, -, -, hnames, ⟨hcount, hsynthesize⟩ | ⟨hcount, ts, P, hts, rfl⟩⟩ := exists_of_inject h
  · exact framed_of_synthesize haligned hsize ((count_names_eq_zero_iff hnames).1 hcount) hsynthesize
  · apply framed_of_injectMethods haligned hnames ?_ hts
    by_contra hnone
    apply hcount
    rw [count_names_eq_zero_iff hnames]
    intro m hm hname
    exact hnone ⟨m, hm, hname⟩

theorem framed_of_inject_registry : registryFile.Framed registryRule.targetMethod registered.file := by
  have hfile : ClassFile.decode registryBytes = .ok registryFile := by decide +kernel
  have hlengths : [0, 0].length = registryFile.methods.length := rfl
  exact framed_of_inject hfile hlengths inject_registry

end ClassDraft

end Registrar
