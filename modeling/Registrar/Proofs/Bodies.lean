import Registrar.Code.Basic
import Registrar.Proofs.Reading
import Registrar.Proofs.Results

/-!
# Stored method bodies

* `Attribute.spell`, `MethodBody.spell` : the bytes of an attribute and of a body;
* `MethodBody.Storable` : the lengths and counts of a body fit their fields;
* `MethodBody.decode_eq_ok_iff`, `MethodBody.encode_eq_ok_iff` : what is read and written is just that.
-/

namespace Registrar

theorem length32_eq_ok_iff {error : EncodeError} {content bytes : List UInt8} :
    length32 error content = .ok bytes ↔
      content.length < 0x100000000 ∧ bytes = bytes32 (UInt32.ofNat content.length) := by
  rw [length32]
  split_ifs with h
  · simp [h, eq_comm]
  · simp [h]

/-! ## Attributes -/

namespace Attribute

/-- The bytes of an attribute. -/
def spell (a : Attribute) : List UInt8 :=
  bytes16 a.name ++ (bytes32 (UInt32.ofNat a.content.length) ++ a.content)

/-- The length of the content fits its field. -/
def Storable (a : Attribute) : Prop := a.content.length < 0x100000000

theorem length_field {content : List UInt8} {length : UInt32} (h : content.length = length.toNat) :
    UInt32.ofNat content.length = length := by
  rw [h, UInt32.ofNat_toNat]

theorem toNat_length_field {content : List UInt8} :
    content.length = (UInt32.ofNat content.length).toNat ↔ content.length < 0x100000000 := by
  constructor
  · intro h
    rw [h]
    exact UInt32.toNat_lt _
  · intro h
    exact (UInt32.toNat_ofNat_of_lt' h).symm

theorem reads_decode : decode.Reads (Decoder.Spelled Storable spell) := by
  refine (Decoder.reads_u16.field Attribute.name (fun name =>
    Decoder.reads_u32.field (fun a : Attribute => UInt32.ofNat a.content.length) (fun length =>
      (Decoder.reads_take length.toNat).last (fun content => (⟨name, content⟩ : Attribute)) Attribute.content
        fun _ => rfl) ?_) ?_).respell ?_ fun _ => rfl
  · rintro length a ⟨h, -⟩
    exact length_field h
  · rintro name a ⟨-, -, h⟩
    rw [h]
  · intro a
    simp only [true_and, and_true, toNat_length_field]
    rfl

theorem encode_eq_ok_iff {a : Attribute} {bytes : List UInt8} :
    a.encode = .ok bytes ↔ a.Storable ∧ bytes = a.spell := by
  simp only [encode, Except.bind_eq_ok_iff, Except.pure_eq_ok_iff, length32_eq_ok_iff]
  constructor
  · rintro ⟨_, ⟨h, rfl⟩, rfl⟩
    exact ⟨h, rfl⟩
  · rintro ⟨h, rfl⟩
    exact ⟨_, ⟨h, rfl⟩, rfl⟩

theorem encodeAll_eq_ok_iff {as : List Attribute} {bytes : List UInt8} :
    encodeAll as = .ok bytes ↔ (∀ a ∈ as, a.Storable) ∧ bytes = count16 as.length ++ as.flatMap spell := by
  have hparts (parts : List (List UInt8)) : List.Forall₂ (fun (a : Attribute) bytes => a.encode = .ok bytes) as parts ↔
      (∀ a ∈ as, a.Storable) ∧ parts = as.map spell := by
    simp only [encode_eq_ok_iff]
    exact Decoder.forall₂_spelled
  simp only [encodeAll, Except.bind_eq_ok_iff, Except.pure_eq_ok_iff, Except.mapM_eq_ok_iff, hparts, List.flatMap_def]
  constructor
  · rintro ⟨_, ⟨h, rfl⟩, rfl⟩
    exact ⟨h, rfl⟩
  · rintro ⟨h, rfl⟩
    exact ⟨_, ⟨h, rfl⟩, rfl⟩

end Attribute

/-! ## Bodies -/

theorem Handler.reads_decode : Handler.decode.Reads (Decoder.Spelled (fun _ => True) Handler.encode) := by
  refine (Decoder.reads_u16.field Handler.start (fun start =>
    Decoder.reads_u16.field Handler.stop (fun stop =>
      Decoder.reads_u16.field Handler.target (fun target =>
        Decoder.reads_u16.last (fun catchType => (⟨start, stop, target, catchType⟩ : Handler)) Handler.catchType
          fun _ => rfl) ?_) ?_) ?_).respell ?_ fun _ => rfl
  · rintro _ _ ⟨-, h⟩; rw [h]
  · rintro _ _ ⟨-, -, h⟩; rw [h]
  · rintro _ _ ⟨-, -, -, h⟩; rw [h]
  · simp

namespace MethodBody

/-- The bytes of a body. -/
def spell (b : MethodBody) : List UInt8 :=
  bytes16 b.maxStack ++ (bytes16 b.maxLocals ++ (bytes32 (UInt32.ofNat b.code.length) ++ (b.code ++
    ((count16 b.handlers.length ++ b.handlers.flatMap Handler.encode) ++
      (count16 b.attributes.length ++ b.attributes.flatMap Attribute.spell)))))

/-- The lengths and counts of the body fit their fields. -/
structure Storable (b : MethodBody) : Prop where
  code : b.code.length < 0x100000000
  handlers : b.handlers.length < 0x10000
  attributes : b.attributes.length < 0x10000
  contents : ∀ a ∈ b.attributes, a.Storable

theorem reads_decodeFront : decodeFront.Reads (Decoder.Spelled Storable spell) := by
  refine (Decoder.reads_u16.field MethodBody.maxStack (fun maxStack =>
    Decoder.reads_u16.field MethodBody.maxLocals (fun maxLocals =>
      Decoder.reads_u32.field (fun b : MethodBody => UInt32.ofNat b.code.length) (fun length =>
        (Decoder.reads_take length.toNat).field MethodBody.code (fun code =>
          Handler.reads_decode.counted_spelled.field MethodBody.handlers (fun handlers =>
            Attribute.reads_decode.counted_spelled.last
              (fun attributes => (⟨maxStack, maxLocals, code, handlers, attributes⟩ : MethodBody))
              MethodBody.attributes fun _ => rfl) ?_) ?_) ?_) ?_) ?_).respell ?_ fun _ => rfl
  · rintro _ _ ⟨-, h⟩; rw [h]
  · rintro _ _ ⟨-, -, h⟩; rw [h]
  · rintro length b ⟨h, -⟩
    exact Attribute.length_field h
  · rintro _ _ ⟨-, -, -, -, h⟩; rw [h]
  · rintro _ _ ⟨-, -, -, -, -, h⟩; rw [h]
  · intro b
    simp only [true_and, and_true, Attribute.toNat_length_field, implies_true]
    constructor
    · rintro ⟨hcode, hhandlers, hattributes, hcontents⟩
      exact ⟨hcode, hhandlers, hattributes, hcontents⟩
    · rintro ⟨hcode, hhandlers, hattributes, hcontents⟩
      exact ⟨hcode, hhandlers, hattributes, hcontents⟩

theorem decode_eq_ok_iff {content : List UInt8} {b : MethodBody} :
    decode content = .ok b ↔ b.Storable ∧ content = b.spell := by
  rw [decode]
  constructor
  · intro h
    split at h
    · cases h
    · next hfront =>
      cases h
      obtain ⟨_, ⟨hb, rfl⟩, rfl⟩ := reads_decodeFront.sound hfront
      exact ⟨hb, List.append_nil _⟩
    · cases h
  · rintro ⟨hb, rfl⟩
    have hfront := reads_decodeFront.complete ⟨hb, rfl⟩ []
    rw [List.append_nil] at hfront
    rw [hfront]

theorem decodeFront_of_decode {content : List UInt8} {b : MethodBody} (h : decode content = .ok b) :
    decodeFront content = .ok (b, []) := by
  obtain ⟨hb, hcontent⟩ := decode_eq_ok_iff.1 h
  have hfront := reads_decodeFront.complete ⟨hb, hcontent⟩ []
  rwa [List.append_nil] at hfront

/-- Bytes behind a body are refused. -/
theorem decode_append {content more : List UInt8} {b : MethodBody} (h : decode content = .ok b) (hmore : more ≠ []) :
    decode (content ++ more) = .error .trailingInCode := by
  obtain ⟨a, more, rfl⟩ := List.exists_cons_of_ne_nil hmore
  rw [decode, reads_decodeFront.append (decodeFront_of_decode h), List.nil_append]

theorem encode_eq_ok_iff {content : List UInt8} {b : MethodBody} :
    b.encode = .ok content ↔ b.code.length < 0x100000000 ∧ (∀ a ∈ b.attributes, a.Storable) ∧ content = b.spell := by
  simp only [encode, Except.bind_eq_ok_iff, Except.pure_eq_ok_iff, length32_eq_ok_iff, Attribute.encodeAll_eq_ok_iff]
  constructor
  · rintro ⟨_, ⟨hcode, rfl⟩, _, ⟨hcontents, rfl⟩, rfl⟩
    exact ⟨hcode, hcontents, by simp [spell]⟩
  · rintro ⟨hcode, hcontents, rfl⟩
    exact ⟨_, ⟨hcode, rfl⟩, _, ⟨hcontents, rfl⟩, by simp [spell]⟩

/-- A body is read back, if its counts fit their fields. -/
theorem decode_of_encode {content : List UInt8} {b : MethodBody} (h : b.encode = .ok content)
    (hhandlers : b.handlers.length < 0x10000) (hattributes : b.attributes.length < 0x10000) :
    decode content = .ok b := by
  obtain ⟨hcode, hcontents, hcontent⟩ := encode_eq_ok_iff.1 h
  exact decode_eq_ok_iff.2 ⟨⟨hcode, hhandlers, hattributes, hcontents⟩, hcontent⟩

end MethodBody

end Registrar
