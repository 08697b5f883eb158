import Registrar.Proofs.ClassFiles
import Registrar.Proofs.Registrations

/-!
# Changed classes are read back

* `ConstantRequest` : a constant that is looked up, and added where it is missing;
* `ClassFile.Modified` : a class to which constants were added and rules were applied;
* `ClassFile.Bounded` : what bounds a class that is read and every modified one. `Bounded.request`, `Bounded.inject` : one
  modification keeps it;
* `ClassFile.decode_iff_of_modified` : a modified class that is written is read back just when its texts and the number
  of its methods fit their fields. `not_forall_decode` : it is not always read back.
-/

namespace Registrar

open ConstantPool (Extends)

/-! ## Added constants -/

theorem Constant.Added.readable {c : Constant} (h : c.Added) : c.Readable := by
  cases h with
  | text text => exact readable_ofText text
  | classRef | nameAndType | methodRef | interfaceMethodRef => trivial

theorem Constant.Added.isWide {c : Constant} (h : c.Added) : c.isWide = false := by
  cases h <;> rfl

theorem ConstantPool.Extends.readable {P Q : ConstantPool} (h : Extends P Q) (hP : P.Readable) : Q.Readable := by
  induction h with
  | refl => exact hP
  | push _ hadded _ _ ih => exact ih.push hadded.readable hadded.isWide

/-- A constant of a pool, which is added if it is missing. -/
inductive ConstantRequest where
  /-- A text. -/
  | text (value : String)
  /-- A class. -/
  | classRef (name : String)
  /-- A name with a descriptor. -/
  | nameAndType (name descriptor : String)
  /-- A method of a class or of an interface. -/
  | methodRef (owner name descriptor : String) (interface : Bool)

namespace ConstantRequest

/-- The index of the constant. -/
def index : ConstantRequest → ConstantPool.Interning UInt16
  | .text value => ConstantPool.utf8Index value
  | .classRef name => ConstantPool.classIndex name
  | .nameAndType name descriptor => ConstantPool.nameAndTypeIndex name descriptor
  | .methodRef owner name descriptor interface => ConstantPool.methodRefIndex owner name descriptor interface

theorem stable_index (request : ConstantRequest) : request.index.Stable := by
  cases request with
  | text value => exact ConstantPool.Interning.stable_utf8Index value
  | classRef name => exact ConstantPool.Interning.stable_classIndex name
  | nameAndType name descriptor => exact ConstantPool.Interning.stable_nameAndTypeIndex name descriptor
  | methodRef owner name descriptor interface =>
    exact ConstantPool.Interning.stable_methodRefIndex owner name descriptor interface

end ConstantRequest

/-! ## Rules -/

/-- A new static initializer has one attribute. -/
theorem ClassFile.length_attributes_of_initializer {P P' : ConstantPool} {context : CallContext}
    {calls : List RegisterCall} {m : Member} (h : initializer P context calls = .ok (m, P')) :
    m.attributes.length = 1 := by
  simp only [initializer, Except.bind_eq_ok_iff] at h
  obtain ⟨⟨bytes, pool⟩, -, h⟩ := h
  split at h
  · cases h
  · simp only [Except.bind_eq_ok_iff, Except.pure_eq_ok_iff, Prod.mk.injEq] at h
    obtain ⟨_, -, rfl, -⟩ := h
    rfl

namespace ClassDraft

variable {d d' : ClassDraft} {r : Rule} {matched : NameSet} {injection : RuleInjection}

/-- A rule changes the pool and the methods of a class only. -/
theorem exists_file_of_inject (h : d.inject r matched = .ok (d', injection)) :
    ∃ pool methods, d'.file = { d.file with pool, methods } := by
  obtain ⟨_, calls, names, -, -, -, ⟨-, hsynthesize⟩ | ⟨-, ts, P, -, rfl⟩⟩ := exists_of_inject h
  · obtain ⟨-, m, P, -, rfl⟩ := exists_of_synthesize hsynthesize
    exact ⟨P, _, rfl⟩
  · exact ⟨P, _, rfl⟩

theorem length_attributes_of_injected {P : ConstantPool} {mode : InjectionMode} {steps : List RegistrationStep}
    {t t' : TargetMethod} (h : TargetMethod.Injected P mode steps t t') :
    t'.member.attributes.length = t.member.attributes.length := by
  obtain ⟨position, content, -, hmember⟩ := h.member
  rw [hmember, TargetMethod.withContent, List.length_modify]

/-- A method has as many attributes as before, or it is new and has one. -/
theorem length_attributes_of_inject (haligned : d.Aligned) (h : d.inject r matched = .ok (d', injection)) {m : Member}
    (hm : m ∈ d'.file.methods) :
    m.attributes.length = 1 ∨ ∃ m₀ ∈ d.file.methods, m.attributes.length = m₀.attributes.length := by
  obtain ⟨_, calls, names, -, -, hnames, ⟨-, hsynthesize⟩ | ⟨-, ts, P, hts, rfl⟩⟩ := exists_of_inject h
  · obtain ⟨-, new, P, hnew, rfl⟩ := exists_of_synthesize hsynthesize
    have hmethods : (d.withMethods P (d.methods ++ [⟨new, 0⟩])).file.methods = d.file.methods ++ [new] := by
      show (d.methods ++ [(⟨new, 0⟩ : TargetMethod)]).map (·.member) = _
      rw [List.map_append, haligned]
      rfl
    rw [hmethods, List.mem_append, List.mem_singleton] at hm
    rcases hm with hm | rfl
    · exact Or.inr ⟨m, hm, rfl⟩
    · exact Or.inl (ClassFile.length_attributes_of_initializer hnew)
  · obtain ⟨-, hmethods⟩ := withMethods_ok haligned hnames hts
    obtain ⟨t', ht', rfl⟩ := List.mem_map.1 hm
    obtain ⟨t, ht, hnamed, hother⟩ := hmethods.flip.exists_of_mem ht'
    refine Or.inr ⟨t.member, haligned.mem.2 ⟨t, ht, rfl⟩, ?_⟩
    by_cases hname : d.file.memberName t.member = .ok r.targetMethod
    · obtain ⟨mode, steps, -, -, hinjected⟩ := hnamed hname
      exact length_attributes_of_injected hinjected
    · rw [hother hname]

/-- Each method of a class has a length. -/
theorem aligned_mk {file : ClassFile} {lengths : List Nat} (h : lengths.length = file.methods.length) :
    (⟨file, lengths⟩ : ClassDraft).Aligned := by
  apply List.ext_getElem
  · simp [methods, h]
  · intro i hi hi'
    simp [methods]

end ClassDraft

namespace ClassFile

/-- The class `c'` is the class `c` with constants looked up and rules applied, whatever is recorded of the entries of its
methods. -/
inductive Modified (c : ClassFile) : ClassFile → Prop
  | refl : Modified c c
  | request {c' : ClassFile} {pool : ConstantPool} {index : UInt16} (request : ConstantRequest) :
      Modified c c' → request.index c'.pool = .ok index pool → Modified c { c' with pool }
  | inject {c' : ClassFile} {d : ClassDraft} {r : Rule} {matched : NameSet} {injection : RuleInjection}
      (lengths : List Nat) : Modified c c' → lengths.length = c'.methods.length →
      (⟨c', lengths⟩ : ClassDraft).inject r matched = .ok (d, injection) → Modified c d.file

/-- The counts in a class fit their fields, but for the methods, and the pool holds what can be read. -/
structure Bounded (c : ClassFile) : Prop where
  size : c.pool.entries.size ≤ ConstantPool.maxEntries
  readable : c.pool.Readable
  interfaces : c.interfaces.length < 0x10000
  fields : c.fields.length < 0x10000
  fieldAttributes : ∀ m ∈ c.fields, m.attributes.length < 0x10000
  methodAttributes : ∀ m ∈ c.methods, m.attributes.length < 0x10000
  attributes : c.attributes.length < 0x10000

theorem Storable.bounded {c : ClassFile} (h : c.Storable) : c.Bounded where
  size := Nat.le_of_lt_succ h.pool.size
  readable := h.pool.readable
  interfaces := h.interfaces
  fields := h.fields
  fieldAttributes m hm := (h.fieldsStorable m hm).attributes
  methodAttributes m hm := (h.methodsStorable m hm).attributes
  attributes := h.attributes

theorem Bounded.request {c : ClassFile} {pool : ConstantPool} {index : UInt16} (hc : c.Bounded)
    (request : ConstantRequest) (h : request.index c.pool = .ok index pool) : Bounded { c with pool } := by
  have hext := (request.stable_index _ _ _ h).1
  exact { hc with size := hext.size_le hc.size, readable := hext.readable hc.readable }

theorem Bounded.inject {d d' : ClassDraft} {r : Rule} {matched : NameSet} {injection : RuleInjection}
    (hd : d.file.Bounded) (haligned : d.Aligned) (h : d.inject r matched = .ok (d', injection)) : d'.file.Bounded := by
  obtain ⟨hgrows, -, -, -⟩ := ClassDraft.inject_ok (g := ⟨0, r, matched⟩) haligned hd.size h
  obtain ⟨pool, methods, hfile⟩ := ClassDraft.exists_file_of_inject h
  refine ⟨hgrows.pool.size_le hd.size, hgrows.pool.readable hd.readable, ?_, ?_, ?_, fun m hm => ?_, ?_⟩
  · rw [hfile]
    exact hd.interfaces
  · rw [hfile]
    exact hd.fields
  · rw [hfile]
    exact hd.fieldAttributes
  · rcases ClassDraft.length_attributes_of_inject haligned h hm with hone | ⟨m₀, hm₀, hlength⟩
    · rw [hone]
      decide
    · rw [hlength]
      exact hd.methodAttributes m₀ hm₀
  · rw [hfile]
    exact hd.attributes

theorem Bounded.modified {c c' : ClassFile} (hc : c.Bounded) (h : c.Modified c') : c'.Bounded := by
  induction h with
  | refl => exact hc
  | request request _ hindex ih => exact ih.request request hindex
  | inject lengths _ hlengths hinject ih => exact Bounded.inject ih (ClassDraft.aligned_mk hlengths) hinject

/-- A bounded class that is written is read back just when its texts and the number of its methods fit their fields. -/
theorem Bounded.decode_iff {c : ClassFile} {bytes : List UInt8} (hc : c.Bounded) (h : c.encode = .ok bytes) :
    decode bytes = .ok c ↔ c.methods.length < 0x10000 ∧ ∀ constant ∈ c.pool.entries, constant.Fits := by
  obtain ⟨hcontained, rfl⟩ := encode_eq_ok_iff.1 h
  rw [decode_eq_ok_iff, and_iff_left rfl]
  constructor
  · exact fun hstorable => ⟨hstorable.methods, hstorable.pool.fits⟩
  · rintro ⟨hmethods, hfits⟩
    exact ⟨⟨Nat.lt_succ_of_le hc.size, hc.readable, hfits⟩, hc.interfaces, hc.fields,
      fun m hm => ⟨hc.fieldAttributes m hm, hcontained.fields m hm⟩, hmethods,
      fun m hm => ⟨hc.methodAttributes m hm, hcontained.methods m hm⟩, hc.attributes, hcontained.attributes⟩

/-- The bytes of the class whose static initializer registers `B`. -/
def registeredBytes : List UInt8 :=
  match ClassDraft.registered.file.encode with
  | .ok bytes => bytes
  | .error _ => []

/-- **Reading back.** A class that is read, modified and written is read back as it is just when its texts and the number
of its methods fit their fields. -/
theorem decode_iff_of_modified {data bytes : List UInt8} {c c' : ClassFile} (h : decode data = .ok c)
    (hmodified : c.Modified c') (hbytes : c'.encode = .ok bytes) :
    decode bytes = .ok c' ↔ c'.methods.length < 0x10000 ∧ ∀ constant ∈ c'.pool.entries, constant.Fits := by
  obtain ⟨hstorable, -⟩ := decode_eq_ok_iff.1 h
  exact (hstorable.bounded.modified hmodified).decode_iff hbytes

theorem decode_iff_of_modified_registry :
    decode registeredBytes = .ok ClassDraft.registered.file ↔
      ClassDraft.registered.file.methods.length < 0x10000 ∧
        ∀ constant ∈ ClassDraft.registered.file.pool.entries, constant.Fits := by
  have hfile : ClassFile.decode registryBytes = .ok registryFile := by decide +kernel
  have hbytes : ClassDraft.registered.file.encode = .ok registeredBytes := by decide +kernel
  exact decode_iff_of_modified hfile (.inject [0, 0] .refl rfl ClassDraft.inject_registry) hbytes

/-! ## A text that is too long -/

/-- A class file without constants. -/
def bareFile : ClassFile where
  minorVersion := 0
  majorVersion := 61
  pool := ⟨#[.unusable]⟩
  access := ⟨0⟩
  thisClass := 0
  superClass := 0
  interfaces := []
  fields := []
  methods := []
  attributes := []

/-- A text of one letter, over and over. -/
def longText (n : Nat) : String := String.ofList (List.replicate n 'x')

theorem length_encode_longText (n : Nat) : (ModifiedUtf8.encode (longText n)).length = n := by
  rw [ModifiedUtf8.encode, longText, String.toList_ofList]
  induction n with
  | zero => rfl
  | succ n ih =>
    have hunit : (Utf16.units 'x').flatMap ModifiedUtf8.encodeUnit = [0x78] := by decide
    rw [List.replicate_succ, List.flatMap_cons, List.flatMap_append, hunit, List.length_append, ih]
    exact Nat.add_comm 1 n

theorem not_forall_decode :
    ¬ ∀ (data bytes : List UInt8) (c c' : ClassFile), decode data = .ok c → c.Modified c' → c'.encode = .ok bytes →
      decode bytes = .ok c' := by
  intro h
  have hread : decode bareFile.spell = .ok bareFile := by decide +kernel
  obtain ⟨hbare, -⟩ := decode_eq_ok_iff.1 hread
  have hindex : (ConstantRequest.text (longText 0x10000)).index bareFile.pool =
      .ok 1 ⟨#[.unusable, .ofText (longText 0x10000)]⟩ := by
    simp [ConstantRequest.index, ConstantPool.utf8Index, ConstantPool.findOrPush, ConstantPool.push, bareFile,
      ConstantPool.isText, ConstantPool.maxEntries]
  have hmodified : bareFile.Modified { bareFile with pool := ⟨#[.unusable, .ofText (longText 0x10000)]⟩ } :=
    .request (.text (longText 0x10000)) .refl hindex
  have hencode := encode_eq_ok_iff (c := { bareFile with pool := ⟨#[.unusable, .ofText (longText 0x10000)]⟩ }).2
    ⟨⟨by simp [bareFile], by simp [bareFile], by simp [bareFile]⟩, rfl⟩
  have hback := h _ _ _ _ hread hmodified hencode
  obtain ⟨-, hfits⟩ := ((hbare.bounded.modified hmodified).decode_iff hencode).1 hback
  have hlength : (ModifiedUtf8.encode (longText 0x10000)).length < 0x10000 :=
    hfits (.ofText (longText 0x10000)) (by simp)
  rw [length_encode_longText] at hlength
  exact absurd hlength (by decide)

end ClassFile

end Registrar
