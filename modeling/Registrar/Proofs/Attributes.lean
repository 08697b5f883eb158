import Registrar.ClassFile.Member
import Registrar.Proofs.StackMaps
import Registrar.Proofs.Tables

/-!
# Nested attributes

* `Attribute.ContentMoved` : how the content of a nested attribute is moved, by its name;
* `Attribute.AllMoved` : what becomes of the attributes of a body. `MethodBody.relocateAttributes_eq_ok_iff` : it is
  what the functions compute;
* `AllMoved.named` : the attributes with a name are moved in order;
* `AllMoved.trans`, `AllMoved.mono` : moving twice, and moving with a pool that knows more names.
-/

namespace Registrar

namespace Attribute

/-- The name of a stack map. -/
def stackMapName : String := "StackMapTable"

/-- The names of tables of local variables. -/
def variableNames : List String := ["LocalVariableTable", "LocalVariableTypeTable"]

/-- The names of attributes that hold offsets that are not decoded. -/
def annotationNames : List String := ["RuntimeVisibleTypeAnnotations", "RuntimeInvisibleTypeAnnotations"]

/-- The content of an attribute and what stands for it. -/
def ContentMoved (R : Relocation) (name : String) (content content' : List UInt8) : Prop :=
  if name = "LineNumberTable" then
    OffsetTable.Moved LineNumber.decode LineNumber.encode (LineNumber.Moved R) content content'
  else if name ∈ variableNames then
    OffsetTable.Moved LocalVariable.decode LocalVariable.encode (LocalVariable.Moved R) content content'
  else if name = stackMapName then StackMap.Moved R content content'
  else name ∉ annotationNames ∧ content' = content

/-- An attribute and what stands for it. -/
def Moved (pool : ConstantPool) (R : Relocation) (a a' : Attribute) : Prop :=
  ∃ name, pool.utf8 a.name = .ok name ∧ a'.name = a.name ∧ ContentMoved R name a.content a'.content

/-- The attribute holds offsets that are not decoded. -/
def IsAnnotation (pool : ConstantPool) (a : Attribute) : Prop := ∃ name ∈ annotationNames, pool.utf8 a.name = .ok name

/-- Attributes and what stands for them. Those with offsets that are not decoded are dropped. -/
inductive AllMoved (pool : ConstantPool) (R : Relocation) : List Attribute → List Attribute → Prop
  | nil : AllMoved pool R [] []
  | kept {a a' : Attribute} {as as' : List Attribute} : Moved pool R a a' → AllMoved pool R as as' →
      AllMoved pool R (a :: as) (a' :: as')
  | dropped {a : Attribute} {as as' : List Attribute} : a.IsAnnotation pool → AllMoved pool R as as' →
      AllMoved pool R (a :: as) as'

section
variable {pool : ConstantPool} {R S : Relocation} {as as' : List Attribute}

theorem AllMoved.length_le (h : AllMoved pool R as as') : as'.length ≤ as.length := by
  induction h with
  | nil => exact Nat.le_refl _
  | kept _ _ ih => exact Nat.succ_le_succ ih
  | dropped _ _ ih => exact Nat.le_succ_of_le ih

theorem isNamed_iff {text : String} {a : Attribute} :
    Member.isNamed pool text a = true ↔ pool.utf8 a.name = .ok text := by
  rw [Member.isNamed]
  split <;> simp [*]

/-- The attributes with a name are moved in order. -/
theorem AllMoved.named (h : AllMoved pool R as as') (text : String) (htext : text ∉ annotationNames) :
    List.Forall₂ (fun a a' => ContentMoved R text a.content a'.content) (as.filter (Member.isNamed pool text))
      (as'.filter (Member.isNamed pool text)) := by
  induction h with
  | nil => exact .nil
  | @kept a a' as as' ha _ ih =>
    obtain ⟨name, hname, heq, hcontent⟩ := ha
    have hnamed : Member.isNamed pool text a' = Member.isNamed pool text a := by
      rw [Member.isNamed, Member.isNamed, heq]
    rw [List.filter_cons, List.filter_cons, hnamed]
    split_ifs with htaken
    · rw [isNamed_iff, hname] at htaken
      cases htaken
      exact .cons hcontent ih
    · exact ih
  | @dropped a as as' ha _ ih =>
    obtain ⟨name, hmem, hname⟩ := ha
    have hnamed : Member.isNamed pool text a ≠ true := by
      rw [ne_eq, isNamed_iff, hname]
      intro htaken
      cases htaken
      exact htext hmem
    rw [List.filter_cons, if_neg hnamed]
    exact ih

theorem AllMoved.stackMaps (h : AllMoved pool R as as') :
    List.Forall₂ (fun a a' => StackMap.Moved R a.content a'.content) (as.filter (Member.isNamed pool stackMapName))
      (as'.filter (Member.isNamed pool stackMapName)) :=
  h.named stackMapName (by decide)

/-! ## Moving twice -/

theorem ContentMoved.trans (hR : R.Fits) {name : String} {content content' content'' : List UInt8}
    (h : ContentMoved R name content content') (h' : ContentMoved S name content' content'') :
    ContentMoved (R.comp S) name content content'' := by
  unfold ContentMoved at *
  split_ifs at * with hline hvar hstack
  · exact h.trans LineNumber.reads_decode (fun _ _ _ a b => a.trans b) h'
  · exact h.trans LocalVariable.reads_decode (fun _ _ _ a b => a.trans b) h'
  · exact h.trans hR h'
  · exact ⟨h.1, h'.2.trans h.2⟩

theorem AllMoved.trans (hR : R.Fits) {as'' : List Attribute} (h : AllMoved pool R as as')
    (h' : AllMoved pool S as' as'') : AllMoved pool (R.comp S) as as'' := by
  induction h generalizing as'' with
  | nil =>
    cases h'
    exact .nil
  | kept ha _ ih =>
    obtain ⟨name, hname, heq, hcontent⟩ := ha
    cases h' with
    | kept ha' hrest =>
      obtain ⟨name', hname', heq', hcontent'⟩ := ha'
      rw [heq, hname] at hname'
      cases hname'
      exact .kept ⟨name, hname, heq'.trans heq, hcontent.trans hR hcontent'⟩ (ih hrest)
    | dropped ha' hrest =>
      obtain ⟨name', hmem, hname'⟩ := ha'
      rw [heq] at hname'
      exact .dropped ⟨name', hmem, hname'⟩ (ih hrest)
  | dropped ha _ ih => exact .dropped ha (ih h')

theorem AllMoved.mono {pool' : ConstantPool} (hpool : ∀ i text, pool.utf8 i = .ok text → pool'.utf8 i = .ok text)
    (h : AllMoved pool R as as') : AllMoved pool' R as as' := by
  induction h with
  | nil => exact .nil
  | kept ha _ ih =>
    obtain ⟨name, hname, heq, hcontent⟩ := ha
    exact .kept ⟨name, hpool _ _ hname, heq, hcontent⟩ ih
  | dropped ha _ ih =>
    obtain ⟨name, hmem, hname⟩ := ha
    exact .dropped ⟨name, hmem, hpool _ _ hname⟩ ih

end

end Attribute

/-! ## What the functions compute -/

namespace MethodBody

variable {pool : ConstantPool} {layout : Layout}

theorem relocateAttribute_eq_some_iff (hfits : layout.relocation.Fits) {a a' : Attribute} :
    relocateAttribute pool layout a = .ok (some a') ↔ a.Moved pool layout.relocation a' := by
  have hattribute (content' : List UInt8) : { a with content := content' } = a' ↔
      a'.name = a.name ∧ content' = a'.content := by
    cases a'
    simp [eq_comm]
  unfold relocateAttribute Attribute.Moved
  cases hname : pool.utf8 a.name with
  | error e => simp
  | ok name =>
    simp only [Except.ok.injEq, exists_eq_left', Attribute.ContentMoved, Attribute.variableNames,
      Attribute.stackMapName, Attribute.annotationNames, List.mem_pair, ← OffsetTable.relocateLineNumbers_eq_ok_iff,
      ← OffsetTable.relocateLocalVariables_eq_ok_iff hfits, ← StackMap.relocate_eq_ok_iff hfits]
    have hmoved (x : Except RelocationError (List UInt8)) :
        x.map (fun content => some { a with content := content }) = .ok (some a') ↔
          a'.name = a.name ∧ x = .ok a'.content := by
      rw [Except.map_eq_ok_iff]
      simp only [Option.some.injEq, hattribute]
      constructor
      · rintro ⟨content', hcontent, hname, rfl⟩
        exact ⟨hname, hcontent⟩
      · rintro ⟨hname, hcontent⟩
        exact ⟨_, hcontent, hname, rfl⟩
    split_ifs with hline hvar hstack hann
    · exact hmoved _
    · exact hmoved _
    · rw [hmoved, Except.mapError_eq_ok_iff]
    · simp [hann]
    · rw [Except.ok.injEq, Option.some.injEq, hattribute a.content, eq_comm (a := a.content)]
      simp [hann]

theorem relocateAttribute_eq_none_iff {a : Attribute} :
    relocateAttribute pool layout a = .ok none ↔ a.IsAnnotation pool := by
  have hmoved (x : Except RelocationError (List UInt8)) :
      x.map (fun content => some { a with content := content }) ≠ .ok none := by
    rw [ne_eq, Except.map_eq_ok_iff]
    rintro ⟨_, -, hnone⟩
    cases hnone
  unfold relocateAttribute Attribute.IsAnnotation
  cases pool.utf8 a.name with
  | error e => simp
  | ok name =>
    simp only [Except.ok.injEq, Attribute.annotationNames, List.mem_pair, exists_eq_right']
    split_ifs with hline hvar hstack hann
    · exact iff_of_false (hmoved _) (by rw [hline]; decide)
    · refine iff_of_false (hmoved _) ?_
      rcases hvar with rfl | rfl <;> decide
    · exact iff_of_false (hmoved _) (by rw [hstack]; decide)
    · exact iff_of_true rfl hann
    · exact iff_of_false (by simp) hann

theorem relocateAttributes_eq_ok_iff (hfits : layout.relocation.Fits) {as as' : List Attribute} :
    (∃ results, as.mapM (relocateAttribute pool layout) = .ok results ∧ as' = results.filterMap id) ↔
      Attribute.AllMoved pool layout.relocation as as' := by
  simp only [Except.mapM_eq_ok_iff]
  constructor
  · rintro ⟨results, hresults, rfl⟩
    induction hresults with
    | nil => exact .nil
    | @cons a result as results hresult _ ih =>
      cases result with
      | none => exact .dropped (relocateAttribute_eq_none_iff.1 hresult) ih
      | some a' => exact .kept ((relocateAttribute_eq_some_iff hfits).1 hresult) ih
  · intro h
    induction h with
    | nil => exact ⟨[], .nil, rfl⟩
    | @kept a a' as as' ha _ ih =>
      obtain ⟨results, hresults, rfl⟩ := ih
      exact ⟨some a' :: results, .cons ((relocateAttribute_eq_some_iff hfits).2 ha) hresults, rfl⟩
    | dropped ha _ ih =>
      obtain ⟨results, hresults, rfl⟩ := ih
      exact ⟨none :: results, .cons (relocateAttribute_eq_none_iff.2 ha) hresults, rfl⟩

end MethodBody

end Registrar
