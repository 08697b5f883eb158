import Registrar.ClassFile.Basic
import Registrar.Proofs.Bodies
import Registrar.Proofs.Constants

/-!
# Stored class files

* `Member.spell`, `ClassFile.spell` : the bytes of a member and of a class file;
* `ClassFile.Storable` : the counts and lengths in a class file fit their fields, and its pool is one that is read;
* `ClassFile.decode_eq_ok_iff`, `ClassFile.encode_eq_ok_iff` : what is read and written is just that;
* `ClassFile.encode_of_decode` : what was read is written as it was;
* `refuses_truncated_and_padded` : no bytes that are read start with others that are read.
-/

namespace Registrar

/-! ## Members -/

namespace Member

/-- The bytes of a member. -/
def spell (m : Member) : List UInt8 :=
  bytes16 m.access.bits ++ (bytes16 m.name ++ (bytes16 m.descriptor ++
    (count16 m.attributes.length ++ m.attributes.flatMap Attribute.spell)))

/-- The lengths of the attributes and their count fit their fields. -/
structure Storable (m : Member) : Prop where
  attributes : m.attributes.length < 0x10000
  contents : ∀ a ∈ m.attributes, a.Storable

theorem reads_decode : decode.Reads (Decoder.Spelled Storable spell) := by
  refine (Decoder.reads_u16.field (fun m : Member => m.access.bits) (fun access =>
    Decoder.reads_u16.field Member.name (fun name =>
      Decoder.reads_u16.field Member.descriptor (fun descriptor =>
        Attribute.reads_decode.counted_spelled.last
          (fun attributes => (⟨⟨access⟩, name, descriptor, attributes⟩ : Member)) Member.attributes
          fun _ => rfl) ?_) ?_) ?_).respell ?_ fun _ => rfl
  · rintro _ _ ⟨-, h⟩; rw [h]
  · rintro _ _ ⟨-, -, h⟩; rw [h]
  · rintro _ _ ⟨-, -, -, h⟩; rw [h]
  · intro m
    simp only [true_and, and_true]
    constructor
    · rintro ⟨hattributes, hcontents⟩
      exact ⟨hattributes, hcontents⟩
    · rintro ⟨hattributes, hcontents⟩
      exact ⟨hattributes, hcontents⟩

theorem encode_eq_ok_iff {m : Member} {bytes : List UInt8} :
    m.encode = .ok bytes ↔ (∀ a ∈ m.attributes, a.Storable) ∧ bytes = m.spell := by
  simp only [encode, Except.bind_eq_ok_iff, Except.pure_eq_ok_iff, Attribute.encodeAll_eq_ok_iff]
  constructor
  · rintro ⟨_, ⟨h, rfl⟩, rfl⟩
    exact ⟨h, rfl⟩
  · rintro ⟨h, rfl⟩
    exact ⟨_, ⟨h, rfl⟩, rfl⟩

theorem encodeAll_eq_ok_iff {ms : List Member} {bytes : List UInt8} :
    encodeAll ms = .ok bytes ↔
      (∀ m ∈ ms, ∀ a ∈ m.attributes, a.Storable) ∧ bytes = count16 ms.length ++ ms.flatMap spell := by
  have hparts (parts : List (List UInt8)) : List.Forall₂ (fun (m : Member) bytes => m.encode = .ok bytes) ms parts ↔
      (∀ m ∈ ms, ∀ a ∈ m.attributes, a.Storable) ∧ parts = ms.map spell := by
    simp only [encode_eq_ok_iff]
    exact Decoder.forall₂_spelled
  simp only [encodeAll, Except.bind_eq_ok_iff, Except.pure_eq_ok_iff, Except.mapM_eq_ok_iff, hparts, List.flatMap_def]
  constructor
  · rintro ⟨_, ⟨h, rfl⟩, rfl⟩
    exact ⟨h, rfl⟩
  · rintro ⟨h, rfl⟩
    exact ⟨_, ⟨h, rfl⟩, rfl⟩

end Member

/-! ## Class files -/

namespace ClassFile

/-- What follows the magic number. -/
def spellBody (c : ClassFile) : List UInt8 :=
  bytes16 c.minorVersion ++ (bytes16 c.majorVersion ++ (c.pool.encode ++ (bytes16 c.access.bits ++
    (bytes16 c.thisClass ++ (bytes16 c.superClass ++
      ((count16 c.interfaces.length ++ c.interfaces.flatMap bytes16) ++
        ((count16 c.fields.length ++ c.fields.flatMap Member.spell) ++
          ((count16 c.methods.length ++ c.methods.flatMap Member.spell) ++
            (count16 c.attributes.length ++ c.attributes.flatMap Attribute.spell)))))))))

/-- The bytes of a class file. -/
def spell (c : ClassFile) : List UInt8 := bytes32 magic ++ c.spellBody

/-- The counts and lengths fit their fields, and the pool is one that is read. -/
structure Storable (c : ClassFile) : Prop where
  pool : c.pool.Storable
  interfaces : c.interfaces.length < 0x10000
  fields : c.fields.length < 0x10000
  fieldsStorable : ∀ m ∈ c.fields, m.Storable
  methods : c.methods.length < 0x10000
  methodsStorable : ∀ m ∈ c.methods, m.Storable
  attributes : c.attributes.length < 0x10000
  contents : ∀ a ∈ c.attributes, a.Storable

/-- Reads what follows the magic number. -/
def decodeBody : Decoder ClassFile := do
  let minorVersion ← Decoder.u16
  let majorVersion ← Decoder.u16
  let pool ← Decoder.within .constantPool ConstantPool.decode
  let access ← Decoder.u16
  let thisClass ← Decoder.u16
  let superClass ← Decoder.u16
  let interfaces ← Decoder.counted Decoder.u16
  let fields ← Decoder.within .fields Member.decodeAll
  let methods ← Decoder.within .methods Member.decodeAll
  let attributes ← Decoder.within .classAttributes Attribute.decodeAll
  return ⟨minorVersion, majorVersion, pool, ⟨access⟩, thisClass, superClass, interfaces, fields, methods, attributes⟩

theorem reads_decodeBody : decodeBody.Reads (Decoder.Spelled Storable spellBody) := by
  refine (Decoder.reads_u16.field ClassFile.minorVersion (fun minorVersion =>
    Decoder.reads_u16.field ClassFile.majorVersion (fun majorVersion =>
      (ConstantPool.reads_decode.within .constantPool).field ClassFile.pool (fun pool =>
        Decoder.reads_u16.field (fun c : ClassFile => c.access.bits) (fun access =>
          Decoder.reads_u16.field ClassFile.thisClass (fun thisClass =>
            Decoder.reads_u16.field ClassFile.superClass (fun superClass =>
              Decoder.reads_u16.counted_spelled.field ClassFile.interfaces (fun interfaces =>
                (Member.reads_decode.counted_spelled.within .fields).field ClassFile.fields (fun fields =>
                  (Member.reads_decode.counted_spelled.within .methods).field ClassFile.methods (fun methods =>
                    (Attribute.reads_decode.counted_spelled.within .classAttributes).last
                      (fun attributes => (⟨minorVersion, majorVersion, pool, ⟨access⟩, thisClass, superClass,
                        interfaces, fields, methods, attributes⟩ : ClassFile))
                      ClassFile.attributes fun _ => rfl) ?_) ?_) ?_) ?_) ?_) ?_) ?_) ?_) ?_).respell ?_ fun _ => rfl
  · rintro _ _ ⟨-, h⟩; rw [h]
  · rintro _ _ ⟨-, -, h⟩; rw [h]
  · rintro _ _ ⟨-, -, -, h⟩; rw [h]
  · rintro _ _ ⟨-, -, -, -, h⟩; rw [h]
  · rintro _ _ ⟨-, -, -, -, -, h⟩; rw [h]
  · rintro _ _ ⟨-, -, -, -, -, -, h⟩; rw [h]
  · rintro _ _ ⟨-, -, -, -, -, -, -, h⟩; rw [h]
  · rintro _ _ ⟨-, -, -, -, -, -, -, -, h⟩; rw [h]
  · rintro _ _ ⟨-, -, -, -, -, -, -, -, -, h⟩; rw [h]
  · intro c
    simp only [true_and, and_true, implies_true]
    constructor
    · rintro ⟨hpool, hinterfaces, ⟨hfields, hfields'⟩, ⟨hmethods, hmethods'⟩, hattributes, hcontents⟩
      exact ⟨hpool, hinterfaces, hfields, hfields', hmethods, hmethods', hattributes, hcontents⟩
    · rintro ⟨hpool, hinterfaces, hfields, hfields', hmethods, hmethods', hattributes, hcontents⟩
      exact ⟨hpool, hinterfaces, ⟨hfields, hfields'⟩, ⟨hmethods, hmethods'⟩, hattributes, hcontents⟩

theorem reads_decodeFront : decodeFront.Reads (Decoder.Spelled Storable spell) := by
  have hfront : decodeFront = Decoder.u32 >>= fun found =>
      if found != magic then Decoder.fail .badMagic >>= fun () => decodeBody else decodeBody := rfl
  rw [hfront]
  refine (Decoder.reads_u32.bind (H := fun found c raw => found = magic ∧ c.Storable ∧ raw = c.spellBody)
    fun found => ?_).congr fun c raw => ?_
  · by_cases hmagic : found = magic
    · rw [if_neg (by simpa using hmagic)]
      exact reads_decodeBody.congr fun c raw => (and_iff_right hmagic).symm
    · rw [if_pos (by simpa using hmagic)]
      exact ((Decoder.reads_fail _).bind fun _ => reads_decodeBody).congr fun c raw => by simp [hmagic]
  · constructor
    · rintro ⟨_, _, _, ⟨-, rfl⟩, ⟨rfl, hc, rfl⟩, rfl⟩
      exact ⟨hc, rfl⟩
    · rintro ⟨hc, rfl⟩
      exact ⟨magic, _, _, ⟨trivial, rfl⟩, ⟨rfl, hc, rfl⟩, rfl⟩

theorem decode_eq_ok_iff {data : List UInt8} {c : ClassFile} :
    decode data = .ok c ↔ c.Storable ∧ data = c.spell := by
  rw [decode]
  constructor
  · intro h
    split at h
    · cases h
    · next hfront =>
      cases h
      obtain ⟨_, ⟨hc, rfl⟩, rfl⟩ := reads_decodeFront.sound hfront
      exact ⟨hc, List.append_nil _⟩
    · cases h
  · rintro ⟨hc, rfl⟩
    have hfront := reads_decodeFront.complete ⟨hc, rfl⟩ []
    rw [List.append_nil] at hfront
    rw [hfront]

theorem decodeFront_of_decode {data : List UInt8} {c : ClassFile} (h : decode data = .ok c) :
    decodeFront data = .ok (c, []) := by
  obtain ⟨hc, hdata⟩ := decode_eq_ok_iff.1 h
  have hfront := reads_decodeFront.complete ⟨hc, hdata⟩ []
  rwa [List.append_nil] at hfront

/-- Bytes behind a class file are refused, by the place where they start. -/
theorem decode_append {data more : List UInt8} {c : ClassFile} (h : decode data = .ok c) (hmore : more ≠ []) :
    decode (data ++ more) = .error (.trailingAfterClass data.length) := by
  obtain ⟨a, more, rfl⟩ := List.exists_cons_of_ne_nil hmore
  have hlength : (data ++ a :: more).length - (a :: more).length = data.length := by
    rw [List.length_append, Nat.add_sub_cancel]
  rw [decode, reads_decodeFront.append (decodeFront_of_decode h), List.nil_append]
  exact congrArg (fun n => Except.error (FormatError.trailingAfterClass n)) hlength

/-- The lengths of all attributes fit their fields. -/
structure Contained (c : ClassFile) : Prop where
  fields : ∀ m ∈ c.fields, ∀ a ∈ m.attributes, a.Storable
  methods : ∀ m ∈ c.methods, ∀ a ∈ m.attributes, a.Storable
  attributes : ∀ a ∈ c.attributes, a.Storable

theorem encode_eq_ok_iff {c : ClassFile} {bytes : List UInt8} :
    c.encode = .ok bytes ↔ c.Contained ∧ bytes = c.spell := by
  simp only [encode, Except.bind_eq_ok_iff, Except.pure_eq_ok_iff, Member.encodeAll_eq_ok_iff,
    Attribute.encodeAll_eq_ok_iff]
  constructor
  · rintro ⟨_, ⟨hfields, rfl⟩, _, ⟨hmethods, rfl⟩, _, ⟨hattributes, rfl⟩, rfl⟩
    exact ⟨⟨hfields, hmethods, hattributes⟩, by simp [spell, spellBody]⟩
  · rintro ⟨⟨hfields, hmethods, hattributes⟩, rfl⟩
    exact ⟨_, ⟨hfields, rfl⟩, _, ⟨hmethods, rfl⟩, _, ⟨hattributes, rfl⟩, by simp [spell, spellBody]⟩

theorem Storable.contained {c : ClassFile} (h : c.Storable) : c.Contained where
  fields m hm := (h.fieldsStorable m hm).contents
  methods m hm := (h.methodsStorable m hm).contents
  attributes := h.contents

/-! ## Reading loses nothing -/

/-- A class file with a wide constant, and with a name whose bytes are not those that its text is written with. -/
def looseFile : ClassFile where
  minorVersion := 0
  majorVersion := 61
  pool := ⟨#[.unusable, .utf8 "?" [0xc0, 0xff], .long 42, .unusable, .classRef 1]⟩
  access := ⟨0x21⟩
  thisClass := 4
  superClass := 0
  interfaces := [4]
  fields := [⟨⟨0x02⟩, 1, 1, [⟨1, [7]⟩]⟩]
  methods := []
  attributes := []

/-- The bytes of that class file. -/
def looseBytes : List UInt8 :=
  [0xca, 0xfe, 0xba, 0xbe, 0x00, 0x00, 0x00, 0x3d, 0x00, 0x05, 0x01, 0x00, 0x02, 0xc0, 0xff, 0x05, 0x00, 0x00, 0x00, 0x00,
    0x00, 0x00, 0x00, 0x2a, 0x07, 0x00, 0x01, 0x00, 0x21, 0x00, 0x04, 0x00, 0x00, 0x00, 0x01, 0x00, 0x04, 0x00, 0x01, 0x00,
    0x02, 0x00, 0x01, 0x00, 0x01, 0x00, 0x01, 0x00, 0x01, 0x00, 0x00, 0x00, 0x01, 0x07, 0x00, 0x00, 0x00, 0x00]

/-- **Reading loses nothing.** A class that was read is written as the very bytes that it was read from. -/
theorem encode_of_decode {data : List UInt8} {c : ClassFile} (h : decode data = .ok c) : c.encode = .ok data := by
  -- What is read fits its fields, which is all that a writer asks for.
  obtain ⟨hstorable, hdata⟩ := decode_eq_ok_iff.1 h
  exact encode_eq_ok_iff.2 ⟨hstorable.contained, hdata⟩

theorem encode_of_decode_looseBytes : looseFile.encode = .ok looseBytes := by
  have hread : decode looseBytes = .ok looseFile := by decide +kernel
  exact encode_of_decode hread

end ClassFile

/-! ## Truncated and padded bytes -/

/-- A reader that refuses whatever follows bytes that it accepts also refuses whatever such bytes start with. -/
theorem exists_error_of_comparable {α : Type} {decode : List UInt8 → Except FormatError α}
    (happend : ∀ data more value, decode data = .ok value → more ≠ [] → ∃ error, decode (data ++ more) = .error error)
    {data other : List UInt8} {value : α} (h : decode data = .ok value) (hne : other ≠ data)
    (hstarts : other <+: data ∨ data <+: other) : ∃ error, decode other = .error error := by
  rcases hstarts with ⟨more, hmore⟩ | ⟨more, hmore⟩
  · -- If the truncated bytes were read, the bytes behind them would have been refused.
    have hcut : more ≠ [] := by
      rintro rfl
      exact hne (by simpa using hmore)
    cases hother : decode other with
    | error error => exact ⟨error, rfl⟩
    | ok value' =>
      obtain ⟨error, herror⟩ := happend other more value' hother hcut
      rw [hmore, h] at herror
      cases herror
  · have hpad : more ≠ [] := by
      rintro rfl
      exact hne (by simpa using hmore.symm)
    rw [← hmore]
    exact happend data more value h hpad

/-- **Truncated and padded bytes are refused.** Of two different byte strings of which one starts with the other, at most
one is a class file, and at most one is a method body. -/
theorem refuses_truncated_and_padded :
    (∀ (data other : List UInt8) (c : ClassFile), ClassFile.decode data = .ok c → other ≠ data →
      (other <+: data ∨ data <+: other) → ∃ error, ClassFile.decode other = .error error) ∧
    ∀ (content other : List UInt8) (b : MethodBody), MethodBody.decode content = .ok b → other ≠ content →
      (other <+: content ∨ content <+: other) → ∃ error, MethodBody.decode other = .error error := by
  constructor
  · intro data other c h hne hstarts
    exact exists_error_of_comparable (fun _ _ _ hdata hmore => ⟨_, ClassFile.decode_append hdata hmore⟩) h hne hstarts
  · intro content other b h hne hstarts
    exact exists_error_of_comparable (fun _ _ _ hcontent hmore => ⟨_, MethodBody.decode_append hcontent hmore⟩) h hne
      hstarts

/-- The bytes of a method body that returns. -/
def returningBytes : List UInt8 := [0, 1, 0, 1, 0, 0, 0, 1, 0xb1, 0, 0, 0, 0]

theorem refuses_looseBytes :
    (∃ error, ClassFile.decode (ClassFile.looseBytes.take 57) = .error error) ∧
      (∃ error, ClassFile.decode (ClassFile.looseBytes ++ [0]) = .error error) ∧
      (∃ error, MethodBody.decode (returningBytes.take 9) = .error error) ∧
      ∃ error, MethodBody.decode (returningBytes ++ [0]) = .error error := by
  have hclass : ClassFile.decode ClassFile.looseBytes = .ok ClassFile.looseFile := by decide +kernel
  have hbody : MethodBody.decode returningBytes = .ok ⟨1, 1, [0xb1], [], []⟩ := by decide +kernel
  obtain ⟨hclasses, hbodies⟩ := refuses_truncated_and_padded
  exact ⟨hclasses _ _ _ hclass (by decide) (.inl (List.take_prefix _ _)),
    hclasses _ _ _ hclass (by decide) (.inr (List.prefix_append _ _)),
    hbodies _ _ _ hbody (by decide) (.inl (List.take_prefix _ _)),
    hbodies _ _ _ hbody (by decide) (.inr (List.prefix_append _ _))⟩

end Registrar
