import Registrar.Text.ModifiedUtf8
import Mathlib.Tactic.SplitIfs

/-!
# Texts are read back

* `ModifiedUtf8.unitsOnto_encodeUnit`, `Utf16.toCharsOnto_units` : a unit and a character are read back;
* `ModifiedUtf8.decodeOnto_units` : what standard UTF-8 reads of a character is that character;
* `ModifiedUtf8.decode_encode` : so a text is read back, whichever of the two decoders reads it;
* `ModifiedUtf8.bounds_of_mem_encode` : which bytes a text has none of;
* `ModifiedUtf8.spells_encode` : the bytes of a text are its own, and hold it.
-/

namespace Registrar

/-! ## Characters and units -/

theorem not_lt_of_toNat_le {a : UInt8} (b : UInt8) (h : b.toNat ≤ a.toNat) : ¬ a < b :=
  UInt8.not_lt.2 (UInt8.le_iff_toNat_le.2 h)

theorem Char.toNat_lt_or_lt (c : Char) : c.toNat < 0xD800 ∨ 0xDFFF < c.toNat ∧ c.toNat < 0x110000 := c.valid

namespace Utf16

theorem isHigh_ofNat {n : Nat} (h : n < 0x10000) : isHigh (UInt16.ofNat n) = decide (0xD800 ≤ n ∧ n < 0xDC00) := by
  have hn : (UInt16.ofNat n).toNat = n := UInt16.toNat_ofNat_of_lt' h
  rw [Bool.eq_iff_iff]
  simp [isHigh, UInt16.le_iff_toNat_le, UInt16.lt_iff_toNat_lt, hn]

theorem isLow_ofNat {n : Nat} (h : n < 0x10000) : isLow (UInt16.ofNat n) = decide (0xDC00 ≤ n ∧ n < 0xE000) := by
  have hn : (UInt16.ofNat n).toNat = n := UInt16.toNat_ofNat_of_lt' h
  rw [Bool.eq_iff_iff]
  simp [isLow, UInt16.le_iff_toNat_le, UInt16.lt_iff_toNat_lt, hn]

/-- A character is read back from its units. -/
theorem toCharsOnto_units (found : List Char) (c : Char) (rest : List UInt16) :
    toCharsOnto found (units c ++ rest) = toCharsOnto (c :: found) rest := by
  have hvalid := Char.toNat_lt_or_lt c
  unfold units
  dsimp only
  split_ifs with hone
  · have hhigh : isHigh (UInt16.ofNat c.toNat) = false := by
      rw [isHigh_ofNat hone]
      exact decide_eq_false (by omega)
    have hlow : isLow (UInt16.ofNat c.toNat) = false := by
      rw [isLow_ofNat hone]
      exact decide_eq_false (by omega)
    have hc : Char.ofNat (UInt16.ofNat c.toNat).toNat = c := by
      rw [UInt16.toNat_ofNat_of_lt' hone, Char.ofNat_toNat]
    cases rest <;>
      simp only [List.cons_append, List.nil_append, toCharsOnto, hhigh, hlow, hc, Bool.or_self, Bool.false_eq_true,
        if_false]
  · have hhighLt : 0xD800 + (c.toNat - 0x10000) / 1024 < 0x10000 := by omega
    have hlowLt : 0xDC00 + (c.toNat - 0x10000) % 1024 < 0x10000 := by omega
    have hhigh : isHigh (UInt16.ofNat (0xD800 + (c.toNat - 0x10000) / 1024)) = true := by
      rw [isHigh_ofNat hhighLt]
      exact decide_eq_true (by omega)
    have hlow : isLow (UInt16.ofNat (0xDC00 + (c.toNat - 0x10000) % 1024)) = true := by
      rw [isLow_ofNat hlowLt]
      exact decide_eq_true (by omega)
    have hjoin : join (UInt16.ofNat (0xD800 + (c.toNat - 0x10000) / 1024))
        (UInt16.ofNat (0xDC00 + (c.toNat - 0x10000) % 1024)) = c := by
      have hn : 0x10000 + (0xD800 + (c.toNat - 0x10000) / 1024 - 0xD800) * 1024 +
          (0xDC00 + (c.toNat - 0x10000) % 1024 - 0xDC00) = c.toNat := by omega
      rw [join, UInt16.toNat_ofNat_of_lt' hhighLt, UInt16.toNat_ofNat_of_lt' hlowLt, hn, Char.ofNat_toNat]
    simp only [List.cons_append, List.nil_append, toCharsOnto, hhigh, hlow, if_true, hjoin]

theorem toChars_units (text : List Char) : toChars (text.flatMap units) = text := by
  have honto (found : List Char) : toCharsOnto found (text.flatMap units) = found.reverse ++ text := by
    induction text generalizing found with
    | nil => simp [toCharsOnto]
    | cons c text ih => rw [List.flatMap_cons, toCharsOnto_units, ih, List.reverse_cons, List.append_assoc,
        List.singleton_append]
  exact honto []

end Utf16

namespace ModifiedUtf8

theorem toNat_ofNat {n : Nat} (h : n < 0x100) : (UInt8.ofNat n).toNat = n := UInt8.toNat_ofNat_of_lt' h

section
variable {found : List UInt16} {a : UInt8} {rest : List UInt8}

theorem unitsOnto_one (ha : a.toNat < 0x80) :
    unitsOnto found (a :: rest) = unitsOnto (UInt16.ofNat a.toNat :: found) rest := by
  conv => lhs; unfold unitsOnto
  rw [if_pos (UInt8.lt_iff_toNat_lt.2 ha)]

theorem unitsOnto_two (ha : 0xC0 ≤ a.toNat) (ha' : a.toNat < 0xE0) (b : UInt8) :
    unitsOnto found (a :: b :: rest) =
      unitsOnto (UInt16.ofNat (a.toNat % 32 * 64 + b.toNat % 64) :: found) rest := by
  have hone : ¬ a < 0x80 := not_lt_of_toNat_le 0x80 (Nat.le_trans (by decide) ha)
  have htwo : (0xC0 ≤ a && a < 0xE0) = true := by
    simp only [Bool.and_eq_true, decide_eq_true_eq]
    exact ⟨UInt8.le_iff_toNat_le.2 ha, UInt8.lt_iff_toNat_lt.2 ha'⟩
  conv => lhs; unfold unitsOnto
  rw [if_neg hone, if_pos htwo]

theorem unitsOnto_three (ha : 0xE0 ≤ a.toNat) (ha' : a.toNat < 0xF0) (b c : UInt8) :
    unitsOnto found (a :: b :: c :: rest) =
      unitsOnto (UInt16.ofNat ((a.toNat % 16 * 64 + b.toNat % 64) * 64 + c.toNat % 64) :: found) rest := by
  have hone : ¬ a < 0x80 := not_lt_of_toNat_le 0x80 (Nat.le_trans (by decide) ha)
  have htwo : ¬ (0xC0 ≤ a && a < 0xE0) = true := by
    simp only [Bool.and_eq_true, decide_eq_true_eq, UInt8.le_iff_toNat_le, UInt8.lt_iff_toNat_lt]
    show ¬ (192 ≤ _ ∧ _ < 224)
    omega
  have hthree : (0xE0 ≤ a && a < 0xF0) = true := by
    simp only [Bool.and_eq_true, decide_eq_true_eq]
    exact ⟨UInt8.le_iff_toNat_le.2 ha, UInt8.lt_iff_toNat_lt.2 ha'⟩
  conv => lhs; unfold unitsOnto
  rw [if_neg hone, if_neg htwo, if_pos hthree]

end

/-- A unit is read back from its bytes. -/
theorem unitsOnto_encodeUnit (found : List UInt16) (u : UInt16) (rest : List UInt8) :
    unitsOnto found (encodeUnit u ++ rest) = unitsOnto (u :: found) rest := by
  have hu : u.toNat < 0x10000 := u.toNat_lt
  have hback {n : Nat} (h : n = u.toNat) : UInt16.ofNat n = u := by rw [h, UInt16.ofNat_toNat]
  unfold encodeUnit
  dsimp only
  split_ifs with hone htwo
  · have hn := toNat_ofNat (n := u.toNat) (by omega)
    rw [List.singleton_append, unitsOnto_one (by omega), hback hn]
  · have hlead := toNat_ofNat (n := 0xC0 + u.toNat / 64) (by omega)
    have hlast := toNat_ofNat (n := 0x80 + u.toNat % 64) (by omega)
    rw [List.cons_append, List.singleton_append, unitsOnto_two (by omega) (by omega), hback (by omega)]
  · have hlead := toNat_ofNat (n := 0xE0 + u.toNat / 4096) (by omega)
    have hmiddle := toNat_ofNat (n := 0x80 + u.toNat / 64 % 64) (by omega)
    have hlast := toNat_ofNat (n := 0x80 + u.toNat % 64) (by omega)
    rw [List.cons_append, List.cons_append, List.singleton_append, unitsOnto_three (by omega) (by omega),
      hback (by omega)]

theorem unitsOnto_flatMap (found units : List UInt16) :
    unitsOnto found (units.flatMap encodeUnit) = found.reverse ++ units := by
  induction units generalizing found with
  | nil => simp [unitsOnto]
  | cons u units ih =>
    rw [List.flatMap_cons, unitsOnto_encodeUnit, ih, List.reverse_cons, List.append_assoc, List.singleton_append]

end ModifiedUtf8

/-! ## Standard UTF-8 -/

namespace Utf8

variable {found : List Char} {a : UInt8} {rest : List UInt8}

theorem decodeOnto_one (ha : a.toNat < 0x80) :
    decodeOnto found (a :: rest) = decodeOnto (Char.ofNat a.toNat :: found) rest := by
  conv => lhs; unfold decodeOnto
  rw [if_pos (UInt8.lt_iff_toNat_lt.2 ha)]

theorem decodeOnto_overlong (ha : 0x80 ≤ a.toNat) (ha' : a.toNat < 0xC2) : decodeOnto found (a :: rest) = none := by
  unfold decodeOnto
  rw [if_neg (not_lt_of_toNat_le 0x80 ha), if_pos (UInt8.lt_iff_toNat_lt.2 ha')]

theorem decodeOnto_two (ha : 0xC2 ≤ a.toNat) (ha' : a.toNat < 0xE0) (b : UInt8) :
    decodeOnto found (a :: b :: rest) =
      if isContinuation b then decodeOnto (Char.ofNat (pair a b) :: found) rest else none := by
  conv => lhs; unfold decodeOnto
  rw [if_neg (not_lt_of_toNat_le 0x80 (Nat.le_trans (by decide) ha)),
    if_neg (not_lt_of_toNat_le 0xC2 ha), if_pos (UInt8.lt_iff_toNat_lt.2 ha')]

theorem decodeOnto_three (ha : 0xE0 ≤ a.toNat) (ha' : a.toNat < 0xF0) (b c : UInt8) :
    decodeOnto found (a :: b :: c :: rest) =
      if isTriple a b c then decodeOnto (Char.ofNat (triple a b c) :: found) rest else none := by
  conv => lhs; unfold decodeOnto
  rw [if_neg (not_lt_of_toNat_le 0x80 (Nat.le_trans (by decide) ha)),
    if_neg (not_lt_of_toNat_le 0xC2 (Nat.le_trans (by decide) ha)),
    if_neg (not_lt_of_toNat_le 0xE0 ha), if_pos (UInt8.lt_iff_toNat_lt.2 ha')]

/-- The bytes of a surrogate are refused. -/
theorem isTriple_surrogate {b c : UInt8} (hb : 0xA0 ≤ b.toNat) : isTriple 0xED b c = false := by
  have hlt : ¬ b < 0xA0 := not_lt_of_toNat_le 0xA0 hb
  simp [isTriple, hlt]

end Utf8

namespace ModifiedUtf8

/-- Standard UTF-8 reads a character as that character, or refuses it. -/
theorem decodeOnto_units {found text : List Char} {c : Char} {rest : List UInt8}
    (h : Utf8.decodeOnto found ((Utf16.units c).flatMap encodeUnit ++ rest) = some text) :
    Utf8.decodeOnto (c :: found) rest = some text := by
  have hvalid := Char.toNat_lt_or_lt c
  have hback {n : Nat} (h : n = c.toNat) : Char.ofNat n = c := by rw [h, Char.ofNat_toNat]
  unfold Utf16.units at h
  dsimp only at h
  split_ifs at h with hbasic
  · have hn := UInt16.toNat_ofNat_of_lt' hbasic
    rw [List.flatMap_singleton, encodeUnit, hn] at h
    split_ifs at h with hone htwo
    · have hlead := toNat_ofNat (n := c.toNat) (by omega)
      rwa [List.singleton_append, Utf8.decodeOnto_one (by omega), hback hlead] at h
    · have hlead := toNat_ofNat (n := 0xC0 + c.toNat / 64) (by omega)
      have hlast := toNat_ofNat (n := 0x80 + c.toNat % 64) (by omega)
      rw [List.cons_append, List.singleton_append] at h
      by_cases hzero : c.toNat = 0
      · -- The unit 0 takes two bytes, which standard UTF-8 does not allow.
        rw [Utf8.decodeOnto_overlong (by omega) (by omega)] at h
        cases h
      · have hpair : Utf8.pair (UInt8.ofNat (0xC0 + c.toNat / 64)) (UInt8.ofNat (0x80 + c.toNat % 64)) = c.toNat := by
          unfold Utf8.pair
          omega
        rw [Utf8.decodeOnto_two (by omega) (by omega), hback hpair] at h
        by_cases hcontinues : Utf8.isContinuation (UInt8.ofNat (0x80 + c.toNat % 64)) = true
        · rw [if_pos hcontinues] at h
          exact h
        · rw [if_neg hcontinues] at h
          cases h
    · have hlead := toNat_ofNat (n := 0xE0 + c.toNat / 4096) (by omega)
      have hmiddle := toNat_ofNat (n := 0x80 + c.toNat / 64 % 64) (by omega)
      have hlast := toNat_ofNat (n := 0x80 + c.toNat % 64) (by omega)
      have htriple : Utf8.triple (UInt8.ofNat (0xE0 + c.toNat / 4096)) (UInt8.ofNat (0x80 + c.toNat / 64 % 64))
          (UInt8.ofNat (0x80 + c.toNat % 64)) = c.toNat := by
        unfold Utf8.triple
        omega
      rw [List.cons_append, List.cons_append, List.singleton_append,
        Utf8.decodeOnto_three (by omega) (by omega), hback htriple] at h
      by_cases hallowed : Utf8.isTriple (UInt8.ofNat (0xE0 + c.toNat / 4096)) (UInt8.ofNat (0x80 + c.toNat / 64 % 64))
          (UInt8.ofNat (0x80 + c.toNat % 64)) = true
      · rw [if_pos hallowed] at h
        exact h
      · rw [if_neg hallowed] at h
        cases h
  · -- Outside the basic plane the first unit is a high surrogate.
    have hhigh : 0xD800 + (c.toNat - 0x10000) / 1024 < 0xDC00 := by omega
    have hn : (UInt16.ofNat (0xD800 + (c.toNat - 0x10000) / 1024)).toNat = 0xD800 + (c.toNat - 0x10000) / 1024 :=
      UInt16.toNat_ofNat_of_lt' (Nat.lt_trans hhigh (by decide))
    have hlead : 0xE0 + (0xD800 + (c.toNat - 0x10000) / 1024) / 4096 = 0xED := by omega
    have hmiddle := toNat_ofNat (n := 0x80 + (0xD800 + (c.toNat - 0x10000) / 1024) / 64 % 64) (by omega)
    rw [List.flatMap_cons, List.append_assoc, encodeUnit, hn] at h
    rw [if_neg (by omega), if_neg (by omega), hlead, List.cons_append, List.cons_append, List.singleton_append,
      Utf8.decodeOnto_three (by decide) (by decide)] at h
    have hsurrogate : Utf8.isTriple (UInt8.ofNat 0xED)
        (UInt8.ofNat (0x80 + (0xD800 + (c.toNat - 0x10000) / 1024) / 64 % 64))
        (UInt8.ofNat (0x80 + (0xD800 + (c.toNat - 0x10000) / 1024) % 64)) = false :=
      Utf8.isTriple_surrogate (by omega)
    rw [hsurrogate] at h
    cases h

/-- What standard UTF-8 reads of the bytes of a text is that text. -/
theorem eq_of_decode?_encode {text : String} {read : List Char} (h : Utf8.decode? (encode text) = some read) :
    read = text.toList := by
  have honto {found chars read : List Char}
      (h : Utf8.decodeOnto found ((chars.flatMap Utf16.units).flatMap encodeUnit) = some read) :
      read = found.reverse ++ chars := by
    induction chars generalizing found with
    | nil =>
      rw [List.flatMap_nil, List.flatMap_nil, Utf8.decodeOnto] at h
      rw [List.append_nil]
      exact (Option.some.inj h).symm
    | cons c chars ih =>
      rw [List.flatMap_cons, List.flatMap_append] at h
      rw [ih (decodeOnto_units h), List.reverse_cons, List.append_assoc, List.singleton_append]
  exact honto h

/-- What is read unit by unit of the bytes of a text is that text. -/
theorem toChars_unitsOnto_encode (text : String) : Utf16.toChars (unitsOnto [] (encode text)) = text.toList := by
  rw [encode, unitsOnto_flatMap, List.reverse_nil, List.nil_append, Utf16.toChars_units]

/-- A text is read back from its bytes. -/
theorem decode_encode (text : String) : decode (encode text) = text := by
  unfold decode
  split
  · next read hread => rw [eq_of_decode?_encode hread, String.ofList_toList]
  · rw [toChars_unitsOnto_encode, String.ofList_toList]

/-! ## The bytes of a text -/

theorem bounds_of_mem_encodeUnit {u : UInt16} {b : UInt8} (h : b ∈ encodeUnit u) : 0 < b.toNat ∧ b.toNat < 0xF0 := by
  have hu : u.toNat < 0x10000 := u.toNat_lt
  have hbounds {n : Nat} (hpos : 0 < n) (hlt : n < 0xF0) : 0 < (UInt8.ofNat n).toNat ∧ (UInt8.ofNat n).toNat < 0xF0 := by
    rw [toNat_ofNat (Nat.lt_trans hlt (by decide))]
    exact ⟨hpos, hlt⟩
  unfold encodeUnit at h
  dsimp only at h
  split_ifs at h with hone htwo
  · rw [List.mem_singleton] at h
    subst h
    exact hbounds (by omega) (by omega)
  · simp only [List.mem_cons, List.not_mem_nil, or_false] at h
    rcases h with rfl | rfl
    · exact hbounds (by omega) (by omega)
    · exact hbounds (by omega) (by omega)
  · simp only [List.mem_cons, List.not_mem_nil, or_false] at h
    rcases h with rfl | rfl | rfl
    · exact hbounds (by omega) (by omega)
    · exact hbounds (by omega) (by omega)
    · exact hbounds (by omega) (by omega)

theorem bounds_of_mem_encode {text : String} {b : UInt8} (h : b ∈ encode text) : 0 < b ∧ b < 0xF0 := by
  obtain ⟨u, -, hb⟩ := List.mem_flatMap.1 h
  obtain ⟨hpos, hlt⟩ := bounds_of_mem_encodeUnit hb
  exact ⟨UInt8.lt_iff_toNat_lt.2 hpos, UInt8.lt_iff_toNat_lt.2 hlt⟩

/-- Different texts have different bytes. -/
theorem encode_injective : Function.Injective encode := Function.LeftInverse.injective decode_encode

/-- **Texts in bytes.** Any text is read back from its bytes, unit by unit as well as by standard UTF-8 where that reads
them at all. The bytes hold no zero and none that would lead a character of four bytes, and no other text has them. -/
theorem spells_encode (text : String) :
    decode (encode text) = text ∧ Utf16.toChars (unitsOnto [] (encode text)) = text.toList ∧
      (∀ read, Utf8.decode? (encode text) = some read → read = text.toList) ∧
      (∀ b ∈ encode text, 0 < b ∧ b < 0xF0) ∧ ∀ other, encode other = encode text ↔ other = text :=
  ⟨decode_encode text, toChars_unitsOnto_encode text, fun _ => eq_of_decode?_encode, fun _ => bounds_of_mem_encode,
    fun _ => encode_injective.eq_iff⟩

/-- The text holds a zero, and characters of one, two and three bytes and of two units. -/
theorem spells_encode_mixed :
    decode (encode "a\u0000é€😀") = "a\u0000é€😀" ∧ (0xC0 : UInt8) ∈ encode "a\u0000é€😀" ∧ (0 : UInt8) < 0xC0 ∧
      (0xC0 : UInt8) < 0xF0 ∧ Utf8.decode? (encode "aé€") = some ['a', 'é', '€'] ∧ ['a', 'é', '€'] = "aé€".toList := by
  obtain ⟨hdecode, -, -, hbytes, -⟩ := spells_encode "a\u0000é€😀"
  obtain ⟨-, -, hstandard, -, -⟩ := spells_encode "aé€"
  have hmem : (0xC0 : UInt8) ∈ encode "a\u0000é€😀" := by decide +kernel
  have hread : Utf8.decode? (encode "aé€") = some ['a', 'é', '€'] := by decide +kernel
  obtain ⟨hpos, hlt⟩ := hbytes 0xC0 hmem
  exact ⟨hdecode, hmem, hpos, hlt, hread, hstandard _ hread⟩

end ModifiedUtf8

end Registrar
