import Registrar.Injection.Registration
import Registrar.Proofs.Results

/-!
# Adding constants to a pool

* `ConstantPool.Extends` : a pool with entries added to it, none of them a text that was already there. What an index or
  a search gives stays;
* `Interning.Stable` : a computation that only adds what it does not find, so that it gives the same once more and adds
  nothing. `registrationSteps_stable` : the steps of calls are such a computation;
* `utf8_of_utf8Index`, `get_of_indexOf` : the index of a text or of an entry refers to it.
-/

namespace Registrar

/-- The constants that are added: texts in their own encoding, and what refers to methods. -/
inductive Constant.Added : Constant → Prop
  | text (text : String) : Added (.ofText text)
  | classRef (name : UInt16) : Added (.classRef name)
  | nameAndType (name descriptor : UInt16) : Added (.nameAndType name descriptor)
  | methodRef (owner member : UInt16) : Added (.methodRef owner member)
  | interfaceMethodRef (owner member : UInt16) : Added (.interfaceMethodRef owner member)

end Registrar

namespace Registrar.ConstantPool

theorem get_eq_ok_iff {P : ConstantPool} {i : UInt16} {e : Constant} :
    P.get i = .ok e ↔ P.entries[i.toNat]? = some e := by
  unfold get
  cases P.entries[i.toNat]? <;> simp

/-- A pool and one with entries added to it, for which there was room. No text is added twice. -/
inductive Extends (P : ConstantPool) : ConstantPool → Prop
  | refl : Extends P P
  | push {Q : ConstantPool} {entry : Constant} : Extends P Q → entry.Added → Q.entries.size < maxEntries →
      (∀ text, isText text entry = true → ∀ e ∈ Q.entries, isText text e = false) →
      Extends P ⟨Q.entries.push entry⟩

namespace Extends

variable {P Q R : ConstantPool}

theorem trans (h : Extends P Q) (h' : Extends Q R) : Extends P R := by
  induction h' with
  | refl => exact h
  | push _ hadded hroom hfresh ih => exact .push ih hadded hroom hfresh

theorem getElem? (h : Extends P Q) {i : Nat} {e : Constant} (hi : P.entries[i]? = some e) :
    Q.entries[i]? = some e := by
  induction h with
  | refl => exact hi
  | push _ _ _ _ ih =>
    obtain ⟨hlt, -⟩ := Array.getElem?_eq_some_iff.1 ih
    rw [Array.getElem?_push, if_neg (Nat.ne_of_lt hlt), ih]

/-- A search that succeeds finds the same. -/
theorem findIdx? (h : Extends P Q) {same : Constant → Bool} {i : Nat} (hi : P.entries.findIdx? same = some i) :
    Q.entries.findIdx? same = some i := by
  induction h with
  | refl => exact hi
  | push _ _ _ _ ih => rw [Array.findIdx?_push, ih, Option.some_or]

/-- A text that was there is not added. -/
theorem getElem?_of_isText (h : Extends P Q) {text : String} (htext : ∃ e ∈ P.entries, isText text e = true) {i : Nat}
    {e : Constant} (hi : Q.entries[i]? = some e) (he : isText text e = true) : P.entries[i]? = some e := by
  induction h with
  | refl => exact hi
  | @push Q entry hQ _ _ hfresh ih =>
    rw [Array.getElem?_push] at hi
    split_ifs at hi
    · cases hi
      obtain ⟨e₀, he₀, htext₀⟩ := htext
      obtain ⟨j, hj, rfl⟩ := Array.getElem_of_mem he₀
      have hQj := Array.mem_of_getElem? (hQ.getElem? (Array.getElem?_eq_getElem hj))
      rw [hfresh text he _ hQj] at htext₀
      cases htext₀
    · exact ih hi

theorem size_le (h : Extends P Q) (hP : P.entries.size ≤ maxEntries) : Q.entries.size ≤ maxEntries := by
  cases h with
  | refl => exact hP
  | push _ _ hroom _ =>
    rw [Array.size_push]
    exact hroom

theorem get (h : Extends P Q) {i : UInt16} {e : Constant} (hi : P.get i = .ok e) : Q.get i = .ok e :=
  get_eq_ok_iff.2 (h.getElem? (get_eq_ok_iff.1 hi))

theorem utf8 (h : Extends P Q) {i : UInt16} {text : String} (hi : P.utf8 i = .ok text) : Q.utf8 i = .ok text := by
  unfold ConstantPool.utf8 at hi ⊢
  split at hi
  · next hget =>
    rw [h.get hget]
    exact hi
  · cases hi
  · cases hi

theorem className (h : Extends P Q) {i : UInt16} {name : String} (hi : P.className i = .ok name) :
    Q.className i = .ok name := by
  unfold ConstantPool.className at hi ⊢
  split at hi
  · next hget =>
    rw [h.get hget]
    exact h.utf8 hi
  · cases hi
  · cases hi

end Extends

theorem utf8_eq_ok_iff {P : ConstantPool} {i : UInt16} {text : String} :
    P.utf8 i = .ok text ↔ ∃ e, P.entries[i.toNat]? = some e ∧ isText text e = true := by
  unfold ConstantPool.utf8 ConstantPool.get
  cases P.entries[i.toNat]? with
  | none => simp
  | some e => cases e <;> simp [isText]

/-! ## Stable computations -/

/-- The computation only adds entries. Where they have been added it gives the same, and adds nothing. -/
def Interning.Stable {α : Type} (op : Interning α) : Prop :=
  ∀ (P : ConstantPool) (a : α) (P' : ConstantPool), op P = .ok a P' →
    Extends P P' ∧ ∀ Q : ConstantPool, Extends P' Q → op Q = .ok a Q

namespace Interning

variable {α β : Type}

theorem stable_pure (a : α) : Stable (pure a : Interning α) := by
  intro P b P' h
  obtain ⟨rfl, rfl⟩ := EStateM.pure_eq_ok_iff.1 h
  exact ⟨.refl, fun _ _ => rfl⟩

theorem Stable.bind {op : Interning α} {f : α → Interning β} (h : op.Stable) (hf : ∀ a, (f a).Stable) :
    Stable (op >>= f) := by
  intro P b P' hok
  obtain ⟨a, P₁, hop, hfa⟩ := EStateM.bind_eq_ok_iff.1 hok
  obtain ⟨hext, hagain⟩ := h _ _ _ hop
  obtain ⟨hext', hagain'⟩ := hf a _ _ _ hfa
  exact ⟨hext.trans hext', fun Q hQ => EStateM.bind_eq_ok_iff.2 ⟨a, Q, hagain Q (hext'.trans hQ), hagain' Q hQ⟩⟩

/-- The entry satisfies the search, and so does what has its text. -/
theorem stable_findOrPush {same : Constant → Bool} {entry : Constant} (hadded : entry.Added) (hsame : same entry = true)
    (htext : ∀ text, isText text entry = true → ∀ e, isText text e = true → same e = true) :
    Stable (findOrPush same entry) := by
  intro P i P' h
  unfold findOrPush at h
  split at h
  · next index hindex =>
    cases h
    refine ⟨.refl, fun Q hQ => ?_⟩
    simp only [findOrPush, hQ.findIdx? hindex]
  · next hnone =>
    unfold push at h
    split_ifs at h with hroom
    cases h
    have hall := Array.findIdx?_eq_none_iff.1 hnone
    have hext : Extends P ⟨P.entries.push entry⟩ := by
      refine .push .refl hadded hroom fun text hentry e he => ?_
      by_contra hne
      have := hall e he
      rw [htext text hentry e (Bool.of_not_eq_false hne)] at this
      cases this
    refine ⟨hext, fun Q hQ => ?_⟩
    have hindex : (P.entries.push entry).findIdx? same = some P.entries.size := by
      rw [Array.findIdx?_push, hnone, Option.none_or, if_pos hsame]
    simp only [findOrPush, hQ.findIdx? hindex]

theorem stable_utf8Index (text : String) : (utf8Index text).Stable := by
  refine stable_findOrPush (.text text) (by simp [isText, Constant.ofText]) fun text' htext' e he => ?_
  obtain rfl : text = text' := by simpa [isText, Constant.ofText] using htext'
  exact he

/-- An entry that is not a text. -/
theorem stable_indexOf {entry : Constant} (hadded : entry.Added) (h : ∀ text, isText text entry = false) :
    (indexOf entry).Stable := by
  refine stable_findOrPush hadded (by simp) fun text htext => ?_
  rw [h text] at htext
  cases htext

theorem stable_classIndex (name : String) : (classIndex name).Stable :=
  (stable_utf8Index name).bind fun _ => stable_indexOf (.classRef _) fun _ => rfl

theorem stable_nameAndTypeIndex (name descriptor : String) : (nameAndTypeIndex name descriptor).Stable :=
  (stable_utf8Index name).bind fun _ => (stable_utf8Index descriptor).bind fun _ =>
    stable_indexOf (.nameAndType _ _) fun _ => rfl

theorem stable_methodRefIndex (owner name descriptor : String) (interface : Bool) :
    (methodRefIndex owner name descriptor interface).Stable := by
  refine (stable_classIndex owner).bind fun _ => (stable_nameAndTypeIndex name descriptor).bind fun _ => ?_
  cases interface
  · exact stable_indexOf (.methodRef _ _) fun _ => rfl
  · exact stable_indexOf (.interfaceMethodRef _ _) fun _ => rfl

end Interning

/-- The index that a search gives refers to an entry that satisfies the search. -/
theorem exists_of_findOrPush {P P' : ConstantPool} {same : Constant → Bool} {entry : Constant} {i : UInt16}
    (h : findOrPush same entry P = .ok i P') (hsame : same entry = true) (hP : P.entries.size ≤ maxEntries) :
    ∃ e, P'.entries[i.toNat]? = some e ∧ same e = true := by
  have hbound : ∀ n, n < maxEntries → (UInt16.ofNat n).toNat = n := fun n hn =>
    UInt16.toNat_ofNat_of_lt' (Nat.lt_succ_of_lt hn)
  unfold findOrPush at h
  split at h
  · next index hindex =>
    cases h
    obtain ⟨hlt, hfound, -⟩ := Array.findIdx?_eq_some_iff_getElem.1 hindex
    refine ⟨P.entries[index], ?_, hfound⟩
    rw [hbound index (Nat.lt_of_lt_of_le hlt hP)]
    exact Array.getElem?_eq_getElem hlt
  · unfold push at h
    split_ifs at h with hroom
    cases h
    refine ⟨entry, ?_, hsame⟩
    rw [hbound _ hroom]
    exact Array.getElem?_push_size

/-- The index of a text refers to the text. -/
theorem utf8_of_utf8Index {P P' : ConstantPool} {text : String} {i : UInt16} (h : utf8Index text P = .ok i P')
    (hP : P.entries.size ≤ maxEntries) : P'.utf8 i = .ok text :=
  utf8_eq_ok_iff.2 (exists_of_findOrPush h (by simp [isText, Constant.ofText]) hP)

/-- The index of an entry refers to the entry. -/
theorem get_of_indexOf {P P' : ConstantPool} {entry : Constant} {i : UInt16} (h : indexOf entry P = .ok i P')
    (hP : P.entries.size ≤ maxEntries) : P'.get i = .ok entry := by
  obtain ⟨e, he, hsame⟩ := exists_of_findOrPush h (beq_self_eq_true entry) hP
  obtain rfl := beq_iff_eq.1 hsame
  exact get_eq_ok_iff.2 he

end Registrar.ConstantPool

namespace Registrar

/-! ## Registrations -/

open ConstantPool.Interning

theorem RegisterCall.stable_operands (context : CallContext) (call : RegisterCall) :
    (call.operands context).Stable :=
  (stable_classIndex _).bind fun _ => (stable_methodRefIndex _ _ _ _).bind fun _ =>
    (stable_methodRefIndex _ _ _ _).bind fun _ => stable_pure _

theorem registrationSteps_stable (context : CallContext) (calls : List RegisterCall) :
    Stable (registrationSteps context calls) := by
  induction calls with
  | nil => exact stable_pure []
  | cons call calls ih => exact (call.stable_operands context).bind fun _ => ih.bind fun _ => stable_pure _

end Registrar
