import Registrar.ClassFile.Pool
import Registrar.Proofs.ModifiedUtf8
import Registrar.Proofs.Reading

/-!
# Stored constant pools

* `Constant.Readable`, `Constant.Fits` : what is read is no unusable entry and its text is the one of its bytes, of which
  there are few enough. `Constant.reads_decode` : a constant is read just like that;
* `ConstantPool.Readable` : the entries of a pool that is read. `Readable.push` : one more constant;
* `ConstantPool.reads_decode` : a pool is read just like that, if its entries and its texts fit their fields.
-/

namespace Registrar

open Decoder (bind_eq_ok_iff)

/-! ## Constants -/

namespace Constant

/-- The constant is one that is read, whatever the length of its text. -/
def Readable : Constant → Prop
  | .unusable => False
  | .utf8 value raw => ModifiedUtf8.decode raw = value
  | _ => True

/-- The length of the text fits its field. -/
def Fits : Constant → Prop
  | .utf8 _ raw => raw.length < 0x10000
  | _ => True

theorem readable_ofText (text : String) : (ofText text).Readable := ModifiedUtf8.decode_encode text

theorem exists_of_make {α : Type} {d : Decoder α} {write : α → List UInt8} {make : α → Constant}
    (hd : d.Reads (Decoder.Spelled (fun _ => True) write)) {input rest : List UInt8} {c : Constant}
    (h : (d >>= fun a => pure (make a)) input = .ok (c, rest)) : ∃ a, c = make a ∧ input = write a ++ rest := by
  obtain ⟨_, ⟨a, -, rfl, rfl⟩, rfl⟩ := (hd.make make).sound h
  exact ⟨a, rfl, rfl⟩

theorem exists_of_make₂ {α β : Type} {d : Decoder α} {d' : Decoder β} {write : α → List UInt8} {write' : β → List UInt8}
    {make : α → β → Constant} (hd : d.Reads (Decoder.Spelled (fun _ => True) write))
    (hd' : d'.Reads (Decoder.Spelled (fun _ => True) write')) {input rest : List UInt8} {c : Constant}
    (h : (d >>= fun a => d' >>= fun b => pure (make a b)) input = .ok (c, rest)) :
    ∃ a b, c = make a b ∧ input = write a ++ write' b ++ rest := by
  obtain ⟨a, _, ha, hrest⟩ := bind_eq_ok_iff.1 h
  obtain ⟨b, rfl, rfl⟩ := exists_of_make hd' hrest
  obtain ⟨_, ⟨-, rfl⟩, rfl⟩ := hd.sound ha
  exact ⟨a, b, rfl, (List.append_assoc _ _ _).symm⟩

theorem sound_decode {input rest : List UInt8} {c : Constant} (h : decode input = .ok (c, rest)) :
    (c.Readable ∧ c.Fits) ∧ input = c.encode ++ rest := by
  obtain ⟨tag, mid, htag, hbody⟩ := bind_eq_ok_iff.1 h
  obtain ⟨_, ⟨-, rfl⟩, rfl⟩ := Decoder.reads_u8.sound htag
  clear h htag
  split at hbody
  · obtain ⟨length, _, hlength, htext⟩ := bind_eq_ok_iff.1 hbody
    obtain ⟨raw, _, hraw, hvalue⟩ := bind_eq_ok_iff.1 htext
    obtain ⟨_, ⟨-, rfl⟩, rfl⟩ := Decoder.reads_u16.sound hlength
    obtain ⟨_, ⟨hl, rfl⟩, rfl⟩ := (Decoder.reads_take _).sound hraw
    cases hvalue
    refine ⟨⟨rfl, ?_⟩, ?_⟩
    · show _ < 0x10000
      rw [hl]
      exact length.toNat_lt
    · simp only [encode, hl, Decoder.count16_toNat, List.cons_append, List.nil_append, List.append_assoc]
  · obtain ⟨v, rfl, rfl⟩ := exists_of_make Decoder.reads_u32 hbody
    exact ⟨⟨trivial, trivial⟩, rfl⟩
  · obtain ⟨v, rfl, rfl⟩ := exists_of_make Decoder.reads_u32 hbody
    exact ⟨⟨trivial, trivial⟩, rfl⟩
  · obtain ⟨v, rfl, rfl⟩ := exists_of_make Decoder.reads_u64 hbody
    exact ⟨⟨trivial, trivial⟩, rfl⟩
  · obtain ⟨v, rfl, rfl⟩ := exists_of_make Decoder.reads_u64 hbody
    exact ⟨⟨trivial, trivial⟩, rfl⟩
  · obtain ⟨v, rfl, rfl⟩ := exists_of_make Decoder.reads_u16 hbody
    exact ⟨⟨trivial, trivial⟩, rfl⟩
  · obtain ⟨v, rfl, rfl⟩ := exists_of_make Decoder.reads_u16 hbody
    exact ⟨⟨trivial, trivial⟩, rfl⟩
  · obtain ⟨v, w, rfl, rfl⟩ := exists_of_make₂ Decoder.reads_u16 Decoder.reads_u16 hbody
    exact ⟨⟨trivial, trivial⟩, rfl⟩
  · obtain ⟨v, w, rfl, rfl⟩ := exists_of_make₂ Decoder.reads_u16 Decoder.reads_u16 hbody
    exact ⟨⟨trivial, trivial⟩, rfl⟩
  · obtain ⟨v, w, rfl, rfl⟩ := exists_of_make₂ Decoder.reads_u16 Decoder.reads_u16 hbody
    exact ⟨⟨trivial, trivial⟩, rfl⟩
  · obtain ⟨v, w, rfl, rfl⟩ := exists_of_make₂ Decoder.reads_u16 Decoder.reads_u16 hbody
    exact ⟨⟨trivial, trivial⟩, rfl⟩
  · obtain ⟨v, w, rfl, rfl⟩ := exists_of_make₂ Decoder.reads_u8 Decoder.reads_u16 hbody
    exact ⟨⟨trivial, trivial⟩, rfl⟩
  · obtain ⟨v, rfl, rfl⟩ := exists_of_make Decoder.reads_u16 hbody
    exact ⟨⟨trivial, trivial⟩, rfl⟩
  · obtain ⟨v, w, rfl, rfl⟩ := exists_of_make₂ Decoder.reads_u16 Decoder.reads_u16 hbody
    exact ⟨⟨trivial, trivial⟩, rfl⟩
  · obtain ⟨v, w, rfl, rfl⟩ := exists_of_make₂ Decoder.reads_u16 Decoder.reads_u16 hbody
    exact ⟨⟨trivial, trivial⟩, rfl⟩
  · obtain ⟨v, rfl, rfl⟩ := exists_of_make Decoder.reads_u16 hbody
    exact ⟨⟨trivial, trivial⟩, rfl⟩
  · obtain ⟨v, rfl, rfl⟩ := exists_of_make Decoder.reads_u16 hbody
    exact ⟨⟨trivial, trivial⟩, rfl⟩
  · cases hbody

theorem complete_decode {c : Constant} (hc : c.Readable) (hfits : c.Fits) (rest : List UInt8) :
    decode (c.encode ++ rest) = .ok (c, rest) := by
  have one16 (make : UInt16 → Constant) (v : UInt16) :
      (Decoder.u16 >>= fun a => pure (make a)) (bytes16 v ++ rest) = .ok (make v, rest) :=
    (Decoder.reads_u16.make make).complete ⟨v, trivial, rfl, rfl⟩ rest
  have two16 (make : UInt16 → UInt16 → Constant) (v w : UInt16) :
      (Decoder.u16 >>= fun a => Decoder.u16 >>= fun b => pure (make a b)) (bytes16 v ++ bytes16 w ++ rest) =
        .ok (make v w, rest) := by
    rw [List.append_assoc]
    exact bind_eq_ok_iff.2 ⟨v, _, Decoder.u16_encode v _, one16 (make v) w⟩
  refine bind_eq_ok_iff.2 ?_
  cases c with
  | unusable => cases hc
  | utf8 value raw =>
    refine ⟨1, _, rfl, ?_⟩
    have hlength : (UInt16.ofNat raw.length).toNat = raw.length := UInt16.toNat_ofNat_of_lt' hfits
    have htext : ModifiedUtf8.decode raw = value := hc
    have hraw := Decoder.take_append raw rest
    rw [← hlength] at hraw
    simp only [bind_eq_ok_iff, count16]
    exact ⟨_, _, Decoder.u16_encode _ _, _, _, hraw, by rw [htext]; rfl⟩
  | integer bits => exact ⟨3, _, rfl, (Decoder.reads_u32.make integer).complete ⟨bits, trivial, rfl, rfl⟩ rest⟩
  | float bits => exact ⟨4, _, rfl, (Decoder.reads_u32.make float).complete ⟨bits, trivial, rfl, rfl⟩ rest⟩
  | long bits => exact ⟨5, _, rfl, (Decoder.reads_u64.make long).complete ⟨bits, trivial, rfl, rfl⟩ rest⟩
  | double bits => exact ⟨6, _, rfl, (Decoder.reads_u64.make double).complete ⟨bits, trivial, rfl, rfl⟩ rest⟩
  | classRef name => exact ⟨7, _, rfl, one16 classRef name⟩
  | string text => exact ⟨8, _, rfl, one16 string text⟩
  | fieldRef owner member => exact ⟨9, _, rfl, two16 fieldRef owner member⟩
  | methodRef owner member => exact ⟨10, _, rfl, two16 methodRef owner member⟩
  | interfaceMethodRef owner member => exact ⟨11, _, rfl, two16 interfaceMethodRef owner member⟩
  | nameAndType name descriptor => exact ⟨12, _, rfl, two16 nameAndType name descriptor⟩
  | methodHandle kind reference =>
    exact ⟨15, _, rfl, bind_eq_ok_iff.2 ⟨kind, _, rfl, one16 (methodHandle kind) reference⟩⟩
  | methodType descriptor => exact ⟨16, _, rfl, one16 methodType descriptor⟩
  | dynamic bootstrap member => exact ⟨17, _, rfl, two16 dynamic bootstrap member⟩
  | invokeDynamic bootstrap member => exact ⟨18, _, rfl, two16 invokeDynamic bootstrap member⟩
  | moduleRef name => exact ⟨19, _, rfl, one16 moduleRef name⟩
  | packageRef name => exact ⟨20, _, rfl, one16 packageRef name⟩

theorem reads_decode : decode.Reads (Decoder.Spelled (fun c => c.Readable ∧ c.Fits) encode) := by
  intro input c rest
  constructor
  · intro h
    obtain ⟨hc, hinput⟩ := sound_decode h
    exact ⟨c.encode, ⟨hc, rfl⟩, hinput⟩
  · rintro ⟨_, ⟨⟨hc, hfits⟩, rfl⟩, rfl⟩
    exact complete_decode hc hfits rest

/-- The entries of the pool that a constant takes. -/
def slots (c : Constant) : List Constant := if c.isWide then [c, .unusable] else [c]

theorem flatMap_encode_slots (c : Constant) : c.slots.flatMap encode = c.encode := by
  unfold slots
  split_ifs <;> simp [encode]

theorem toList_appendDecoded (entries : Array Constant) (c : Constant) :
    (ConstantPool.appendDecoded entries c).toList = entries.toList ++ c.slots := by
  unfold ConstantPool.appendDecoded slots
  split_ifs <;> simp

theorem size_appendDecoded (entries : Array Constant) (c : Constant) :
    (ConstantPool.appendDecoded entries c).size = entries.size + c.slots.length := by
  rw [← Array.length_toList, toList_appendDecoded, List.length_append, Array.length_toList]

theorem length_slots_pos (c : Constant) : 0 < c.slots.length := by
  unfold slots
  split_ifs <;> exact Nat.zero_lt_succ _

theorem forall_slots_fits {cs : List Constant} : (∀ c ∈ cs.flatMap slots, c.Fits) ↔ ∀ c ∈ cs, c.Fits := by
  have hslots (c : Constant) : (∀ x ∈ c.slots, x.Fits) ↔ c.Fits := by
    unfold slots
    split_ifs <;> simp [Fits]
  simp only [List.mem_flatMap, forall_exists_index, and_imp]
  constructor
  · exact fun h c hc => (hslots c).1 fun x hx => h x c hc hx
  · exact fun h x c hc hx => (hslots c).2 (h c hc) x hx

end Constant

/-! ## Pools -/

namespace ConstantPool

/-- The entries are the unusable one and those of constants that are read. -/
def Readable (pool : ConstantPool) : Prop :=
  ∃ cs : List Constant, (∀ c ∈ cs, c.Readable) ∧ pool.entries.toList = .unusable :: cs.flatMap Constant.slots

/-- The count of the entries and the lengths of the texts fit their fields. -/
structure Storable (pool : ConstantPool) : Prop where
  size : pool.entries.size < 0x10000
  readable : pool.Readable
  fits : ∀ c ∈ pool.entries, c.Fits

/-- A pool is still one that is read with one more constant of one entry. -/
theorem Readable.push {pool : ConstantPool} {entry : Constant} (h : pool.Readable) (hentry : entry.Readable)
    (hwide : entry.isWide = false) : Readable ⟨pool.entries.push entry⟩ := by
  obtain ⟨cs, hcs, hentries⟩ := h
  refine ⟨cs ++ [entry], fun c hc => ?_, ?_⟩
  · rcases List.mem_append.1 hc with hc | hc
    · exact hcs c hc
    · rwa [List.mem_singleton.1 hc]
  · simp [hentries, Constant.slots, hwide]

theorem sound_decodeOnto {count : Nat} {entries entries' : Array Constant} {input rest : List UInt8}
    (h : decodeOnto count entries input = .ok (entries', rest)) :
    ∃ cs : List Constant, (∀ c ∈ cs, c.Readable ∧ c.Fits) ∧
      entries'.toList = entries.toList ++ cs.flatMap Constant.slots ∧ input = cs.flatMap Constant.encode ++ rest := by
  fun_induction decodeOnto count entries input with
  | case1 => cases h
  | case2 entries input _ c mid hc ih =>
    obtain ⟨cs, hcs, hentries, rfl⟩ := ih h
    obtain ⟨hread, rfl⟩ := Constant.sound_decode hc
    refine ⟨c :: cs, List.forall_mem_cons.2 ⟨hread, hcs⟩, ?_, ?_⟩
    · rw [hentries, Constant.toList_appendDecoded, List.flatMap_cons, List.append_assoc]
    · rw [List.flatMap_cons, List.append_assoc]
  | case3 =>
    cases h
    exact ⟨[], by simp, by simp, rfl⟩

theorem complete_decodeOnto {cs : List Constant} (hcs : ∀ c ∈ cs, c.Readable ∧ c.Fits) (entries : Array Constant)
    (rest : List UInt8) :
    decodeOnto (entries.size + (cs.flatMap Constant.slots).length) entries (cs.flatMap Constant.encode ++ rest) =
      .ok ((entries.toList ++ cs.flatMap Constant.slots).toArray, rest) := by
  induction cs generalizing entries with
  | nil =>
    rw [decodeOnto]
    simp
  | cons c cs ih =>
    obtain ⟨hc, hcs⟩ := List.forall_mem_cons.1 hcs
    have hpos := c.length_slots_pos
    have hrest := ih hcs (appendDecoded entries c)
    rw [Constant.size_appendDecoded, Constant.toList_appendDecoded] at hrest
    rw [decodeOnto, if_pos, List.flatMap_cons, List.append_assoc, Constant.complete_decode hc.1 hc.2]
    · simp only [List.flatMap_cons, List.length_append]
      rw [← Nat.add_assoc, hrest, List.append_assoc]
    · rw [List.flatMap_cons, List.length_append]
      omega

theorem encode_eq {pool : ConstantPool} {cs : List Constant}
    (h : pool.entries.toList = .unusable :: cs.flatMap Constant.slots) :
    pool.encode = count16 pool.entries.size ++ cs.flatMap Constant.encode := by
  have hencode : (cs.flatMap Constant.slots).flatMap Constant.encode = cs.flatMap Constant.encode := by
    rw [List.flatMap_assoc]
    exact congrArg (List.flatMap · cs) (funext Constant.flatMap_encode_slots)
  rw [encode, h, List.flatMap_cons, hencode]
  rfl

theorem reads_decode : decode.Reads (Decoder.Spelled Storable encode) := by
  intro input pool rest
  constructor
  · intro h
    obtain ⟨count, _, hcount, h⟩ := bind_eq_ok_iff.1 h
    obtain ⟨entries, _, hentries, h⟩ := bind_eq_ok_iff.1 h
    split_ifs at h with hsize
    · cases h
      obtain ⟨_, ⟨-, rfl⟩, rfl⟩ := Decoder.reads_u16.sound hcount
      obtain ⟨cs, hcs, hlist, rfl⟩ := sound_decodeOnto hentries
      have hlist' : entries.toList = .unusable :: cs.flatMap Constant.slots := hlist
      refine ⟨_, ⟨⟨?_, ⟨cs, fun c hc => (hcs c hc).1, hlist'⟩, ?_⟩, rfl⟩, ?_⟩
      · rw [hsize]
        exact count.toNat_lt
      · intro c hc
        rw [← Array.mem_toList_iff, hlist', List.mem_cons] at hc
        rcases hc with rfl | hc
        · trivial
        · exact Constant.forall_slots_fits.2 (fun c hc => (hcs c hc).2) c hc
      · rw [encode_eq hlist', hsize, Decoder.count16_toNat, List.append_assoc]
    · cases h
  · rintro ⟨_, ⟨⟨hsize, ⟨cs, hcs, hlist⟩, hfits⟩, rfl⟩, rfl⟩
    have hfits' : ∀ c ∈ cs, c.Fits := Constant.forall_slots_fits.1 fun c hc => hfits c <| by
      rw [← Array.mem_toList_iff, hlist]
      exact List.mem_cons_of_mem _ hc
    have hcount : (UInt16.ofNat pool.entries.size).toNat = pool.entries.size := UInt16.toNat_ofNat_of_lt' hsize
    have hlength : 1 + (cs.flatMap Constant.slots).length = pool.entries.size := by
      rw [← Array.length_toList, hlist, List.length_cons, Nat.add_comm]
    have hentries := complete_decodeOnto (fun c hc => ⟨hcs c hc, hfits' c hc⟩) #[.unusable] rest
    change decodeOnto (1 + _) _ _ = .ok ((.unusable :: cs.flatMap Constant.slots).toArray, rest) at hentries
    rw [hlength, ← hcount, ← hlist] at hentries
    rw [encode_eq hlist, List.append_assoc]
    refine bind_eq_ok_iff.2 ⟨_, _, Decoder.u16_encode _ _, bind_eq_ok_iff.2 ⟨_, _, hentries, ?_⟩⟩
    rw [if_pos (by rw [hcount, Array.toArray_toList])]
    simp
    rfl

end ConstantPool

end Registrar
