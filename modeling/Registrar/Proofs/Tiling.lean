import Registrar.Code.Instruction
import Registrar.Proofs.Reading

/-!
# How bytes split into instructions

* `Instruction.spell pad i` : the bytes of `i`, with `pad` between the opcode of a switch and its tables;
  `encode` is the spelling with zeros;
* `Instruction.WellFormed i` : `i` is what some bytes decode to;
* `decode_eq_ok_iff` : decoding takes exactly a spelling of a well-formed instruction off the front;
* `Tiles offset code ps` : the bytes from `offset` on are the instructions `ps`, one behind the other;
  `decodeAll_eq_ok_iff` : whole code decodes to what tiles it.
-/

namespace Registrar

namespace Opcode

theorem forall_of_byte {p : UInt8 → Prop} (h : ∀ n : Fin 256, p (UInt8.ofFin n)) (opcode : UInt8) : p opcode := by
  simpa using h opcode.toFin

theorem of_isBranch : ∀ opcode : UInt8, isBranch opcode →
    fixedLength? opcode = some 3 ∧ opcode ≠ tableSwitch ∧ opcode ≠ lookupSwitch ∧ opcode ≠ wide ∧
      isWideBranch opcode = false :=
  forall_of_byte (by decide +kernel)

theorem of_isWideBranch : ∀ opcode : UInt8, isWideBranch opcode →
    fixedLength? opcode = some 5 ∧ opcode ≠ tableSwitch ∧ opcode ≠ lookupSwitch ∧ opcode ≠ wide ∧
      isBranch opcode = false :=
  forall_of_byte (by decide +kernel)

theorem fixedLength?_pos : ∀ opcode : UInt8, ∀ n ∈ fixedLength? opcode, 0 < n :=
  forall_of_byte (by decide +kernel)

end Opcode

namespace Instruction

/-! ## Words of 32 bits -/

theorem int32?_bytesOfInt32 (v : Int32) (rest : List UInt8) : int32? (bytesOfInt32 v ++ rest) = some v := by
  have h := Decoder.u32_encode v.toUInt32 rest
  simp only [bytes32, List.cons_append, List.nil_append, Decoder.u32, Except.ok.injEq, Prod.mk.injEq, and_true] at h
  simp only [bytesOfInt32, bytes32, List.cons_append, List.nil_append, int32?, h, Int32.toInt32_toUInt32]

theorem int32sOnto_flatMap (found vs : List Int32) :
    int32sOnto found (vs.flatMap bytesOfInt32) = found.reverse ++ vs := by
  induction vs generalizing found with
  | nil => simp [int32sOnto]
  | cons v vs ih =>
    have h := int32?_bytesOfInt32 v []
    simp only [bytesOfInt32, bytes32, List.cons_append, List.nil_append, int32?, Option.some.injEq] at h
    simp only [List.flatMap_cons, bytesOfInt32, bytes32, List.cons_append, List.nil_append, int32sOnto, h]
    have := ih (v :: found)
    simpa using this

theorem int32s_flatMap (vs : List Int32) : int32s (vs.flatMap bytesOfInt32) = vs := by
  simpa [int32s] using int32sOnto_flatMap [] vs

/-- Bytes come in words when their number is a multiple of four. -/
theorem exists_flatMap_bytesOfInt32 : ∀ (n : Nat) (bytes : List UInt8), bytes.length = 4 * n →
    ∃ vs : List Int32, vs.length = n ∧ bytes = vs.flatMap bytesOfInt32
  | 0, bytes, h => ⟨[], rfl, by simpa using h⟩
  | n + 1, a :: b :: c :: d :: bytes, h => by
    obtain ⟨vs, hn, hvs⟩ := exists_flatMap_bytesOfInt32 n bytes (by simp only [List.length_cons] at h; omega)
    refine ⟨(UInt32.ofNat (((a.toNat * 256 + b.toNat) * 256 + c.toNat) * 256 + d.toNat)).toInt32 :: vs,
      by simp [hn], ?_⟩
    rw [List.flatMap_cons, bytesOfInt32, UInt32.toUInt32_toInt32, Decoder.bytes32_of_u32, ← hvs]
    rfl
  | n + 1, [], h | n + 1, [_], h | n + 1, [_, _], h | n + 1, [_, _, _], h => by
    simp only [List.length_cons, List.length_nil] at h
    omega

/-- The values of a list of pairs, one after the other. -/
def unpair (pairs : List (Int32 × Int32)) : List Int32 := pairs.flatMap fun c => [c.1, c.2]

theorem pairsOnto_unpair (found pairs : List (Int32 × Int32)) :
    pairsOnto found (unpair pairs) = found.reverse ++ pairs := by
  induction pairs generalizing found with
  | nil => simp [unpair, pairsOnto]
  | cons c pairs ih => simpa [unpair, pairsOnto] using ih (c :: found)

theorem exists_unpair : ∀ (n : Nat) (vs : List Int32), vs.length = 2 * n →
    ∃ pairs : List (Int32 × Int32), pairs.length = n ∧ vs = unpair pairs
  | 0, vs, h => ⟨[], rfl, by simpa [unpair] using h⟩
  | n + 1, a :: b :: vs, h => by
    obtain ⟨pairs, hn, rfl⟩ := exists_unpair n vs (by simp only [List.length_cons] at h; omega)
    exact ⟨(a, b) :: pairs, by simp [hn], rfl⟩
  | n + 1, [], h | n + 1, [_], h => by
    simp only [List.length_cons, List.length_nil] at h
    omega

theorem flatMap_unpair (pairs : List (Int32 × Int32)) :
    (unpair pairs).flatMap bytesOfInt32 = pairs.flatMap fun c => bytesOfInt32 c.1 ++ bytesOfInt32 c.2 := by
  simp [unpair, List.flatMap_assoc]

/-! ## Spellings -/

/-- The bytes of an instruction with given bytes between the opcode of a switch and its tables. -/
def spell (pad : List UInt8) : Instruction → List UInt8
  | .plain opcode operands => opcode :: operands
  | .branch opcode distance => opcode :: bytes16 distance.toUInt16
  | .wideBranch opcode distance => opcode :: bytesOfInt32 distance
  | .tableSwitch fallback low high distances =>
    Opcode.tableSwitch :: (pad ++ (fallback :: low :: high :: distances).flatMap bytesOfInt32)
  | .lookupSwitch fallback count cases =>
    Opcode.lookupSwitch :: (pad ++ (fallback :: count :: unpair cases).flatMap bytesOfInt32)

theorem encode_eq_spell (offset : Nat) (i : Instruction) :
    i.encode offset = i.spell (List.replicate (padding offset) 0) := by
  cases i <;> simp [encode, spell, flatMap_unpair]

theorem length_spell {offset : Nat} {pad : List UInt8} (h : pad.length = padding offset) (i : Instruction) :
    (i.spell pad).length = i.size offset := by
  rw [← length_encode, encode_eq_spell]
  cases i <;> simp [spell, h]

theorem size_pos (offset : Nat) (i : Instruction) : 0 < i.size offset := by
  cases i <;> simp only [size] <;> omega

/-- An instruction that some bytes decode to: its kind is that of its opcode, and its operands are as long as the
opcode and the counts among the operands say. -/
def WellFormed : Instruction → Prop
  | .plain opcode operands =>
    Opcode.isBranch opcode = false ∧ Opcode.isWideBranch opcode = false ∧ opcode ≠ Opcode.tableSwitch ∧
      opcode ≠ Opcode.lookupSwitch ∧
      if opcode = Opcode.wide then
        ∃ inner rest, operands = inner :: rest ∧ rest.length = if inner = Opcode.iinc then 4 else 2
      else Opcode.fixedLength? opcode = some (1 + operands.length)
  | .branch opcode _ => Opcode.isBranch opcode
  | .wideBranch opcode _ => Opcode.isWideBranch opcode
  | .tableSwitch _ low high distances =>
    (distances.length : Int) = high.toInt - low.toInt + 1 ∧ distances.length < 0x80000000
  | .lookupSwitch _ count cases => count.toInt = cases.length

/-! ## Decoding spellings -/

section Decoding
variable {offset : Nat} {pad : List UInt8} {i : Instruction}

theorem tableSwitchLength?_spell (hp : pad.length = padding offset) {low high : Int32} {ds : List Int32}
    (hl : (ds.length : Int) = high.toInt - low.toInt + 1) (hb : ds.length < 0x80000000) (fallback : Int32)
    (rest : List UInt8) :
    tableSwitchLength? offset (spell pad (.tableSwitch fallback low high ds) ++ rest) =
      .ok (size offset (.tableSwitch fallback low high ds)) := by
  have d4 : ∀ (v : Int32) (l : List UInt8), (bytesOfInt32 v ++ l).drop 4 = l := fun _ _ => rfl
  have e : spell pad (.tableSwitch fallback low high ds) ++ rest = (Opcode.tableSwitch :: pad) ++
      (bytesOfInt32 fallback ++ (bytesOfInt32 low ++ (bytesOfInt32 high ++ (ds.flatMap bytesOfInt32 ++ rest)))) := by
    simp [spell]
  have hlow : int32? ((spell pad (.tableSwitch fallback low high ds) ++ rest).drop (1 + padding offset + 4)) =
      some low := by
    rw [e, ← List.drop_drop, List.drop_left' (by simp [hp]; omega), d4, int32?_bytesOfInt32]
  have hhigh : int32? ((spell pad (.tableSwitch fallback low high ds) ++ rest).drop (1 + padding offset + 8)) =
      some high := by
    rw [e, show 1 + padding offset + 8 = 1 + padding offset + 4 + 4 by omega, ← List.drop_drop, ← List.drop_drop,
      List.drop_left' (by simp [hp]; omega), d4, d4, int32?_bytesOfInt32]
  simp only [tableSwitchLength?, hlow, hhigh]
  rw [if_pos (by omega), ← hl, Int.toNat_natCast]
  simp only [size]
  congr 1
  omega

theorem lookupSwitchLength?_spell (hp : pad.length = padding offset) {count : Int32} {cases : List (Int32 × Int32)}
    (hl : count.toInt = cases.length) (fallback : Int32) (rest : List UInt8) :
    lookupSwitchLength? offset (spell pad (.lookupSwitch fallback count cases) ++ rest) =
      .ok (size offset (.lookupSwitch fallback count cases)) := by
  have d4 : ∀ (v : Int32) (l : List UInt8), (bytesOfInt32 v ++ l).drop 4 = l := fun _ _ => rfl
  have e : spell pad (.lookupSwitch fallback count cases) ++ rest = (Opcode.lookupSwitch :: pad) ++
      (bytesOfInt32 fallback ++ (bytesOfInt32 count ++ ((unpair cases).flatMap bytesOfInt32 ++ rest))) := by
    simp [spell]
  have hcount : int32? ((spell pad (.lookupSwitch fallback count cases) ++ rest).drop (1 + padding offset + 4)) =
      some count := by
    rw [e, ← List.drop_drop, List.drop_left' (by simp [hp]; omega), d4, int32?_bytesOfInt32]
  simp only [lookupSwitchLength?, hcount]
  rw [if_pos (by omega), hl, Int.toNat_natCast]
  simp only [size]
  congr 1
  omega

theorem length?_spell (hp : pad.length = padding offset) (hi : i.WellFormed) (rest : List UInt8) :
    length? offset (i.spell pad ++ rest) = .ok (i.size offset) := by
  cases i with
  | plain opcode operands =>
    obtain ⟨-, -, ht, hl, hf⟩ := hi
    simp only [spell, List.cons_append, length?, if_neg ht, if_neg hl]
    split_ifs at hf ⊢ with hw
    · obtain ⟨inner, more, rfl, hm⟩ := hf
      simp only [List.cons_append, wideLength?, size, List.length_cons, hm]
      split_ifs <;> rfl
    · simp only [hf, size]
  | branch opcode distance =>
    obtain ⟨hf, ht, hl, hw, -⟩ := Opcode.of_isBranch opcode hi
    simp only [spell, List.cons_append, length?, if_neg ht, if_neg hl, if_neg hw, hf, size]
  | wideBranch opcode distance =>
    obtain ⟨hf, ht, hl, hw, -⟩ := Opcode.of_isWideBranch opcode hi
    simp only [spell, List.cons_append, length?, if_neg ht, if_neg hl, if_neg hw, hf, size]
  | tableSwitch fallback low high ds =>
    rw [← tableSwitchLength?_spell hp hi.1 hi.2 fallback rest]
    simp only [spell, List.cons_append, length?, if_true]
  | lookupSwitch fallback count cases =>
    rw [← lookupSwitchLength?_spell hp hi fallback rest]
    simp only [spell, List.cons_append, length?, if_true]
    rw [if_neg (by decide)]

theorem ofBytes_spell (hp : pad.length = padding offset) (hi : i.WellFormed) : ofBytes offset (i.spell pad) = i := by
  cases i with
  | plain opcode operands =>
    obtain ⟨hb, hw, ht, hl, -⟩ := hi
    simp [spell, ofBytes, hb, hw, ht, hl]
  | branch opcode distance =>
    have h := Decoder.u16_encode distance.toUInt16 []
    simp only [bytes16, List.cons_append, List.nil_append, Decoder.u16, Except.ok.injEq, Prod.mk.injEq,
      and_true] at h
    have hb : Opcode.isBranch opcode = true := hi
    simp only [spell, bytes16, ofBytes, hb, if_true, h, Int16.toInt16_toUInt16]
  | wideBranch opcode distance =>
    have hb := (Opcode.of_isWideBranch opcode hi).2.2.2.2
    have hw : Opcode.isWideBranch opcode = true := hi
    have h := int32?_bytesOfInt32 distance []
    rw [List.append_nil] at h
    simp [spell, ofBytes, hb, hw, h]
  | tableSwitch fallback low high ds =>
    simp only [spell, ofBytes, ← hp, List.drop_left, int32s_flatMap, if_true]
    rfl
  | lookupSwitch fallback count cases =>
    simp only [spell, ofBytes, ← hp, List.drop_left, int32s_flatMap, pairsOnto_unpair, if_true]
    rfl

/-! ## What bytes decode to -/

theorem exists_spell_tableSwitch {rest : List UInt8} {n : Nat}
    (h : tableSwitchLength? offset (Opcode.tableSwitch :: rest) = .ok n)
    (hn : ((Opcode.tableSwitch :: rest).take n).length = n) :
    ∃ i pad, WellFormed i ∧ pad.length = padding offset ∧ (Opcode.tableSwitch :: rest).take n = i.spell pad := by
  simp only [tableSwitchLength?] at h
  split at h
  case h_2 => cases h
  case h_1 low high hlow hhigh =>
    split_ifs at h with hc
    simp only [Except.ok.injEq] at h
    obtain ⟨count, hcount⟩ : ∃ count : Nat, high.toInt - low.toInt + 1 = count := ⟨_, (Int.toNat_of_nonneg hc.1).symm⟩
    rw [hcount, Int.toNat_natCast] at h
    have hn1 : n = (12 + padding offset + count * 4) + 1 := by omega
    have hfront : (rest.take (12 + padding offset + count * 4)).length = 12 + padding offset + count * 4 := by
      simpa [hn1] using hn
    generalize hf : rest.take (12 + padding offset + count * 4) = front at hfront
    obtain ⟨vs, hvs, hwords⟩ := exists_flatMap_bytesOfInt32 (3 + count) (front.drop (padding offset))
      (by rw [List.length_drop, hfront]; omega)
    match vs, hvs with
    | fallback :: low' :: high' :: ds, hvs =>
      have hds : ds.length = count := by simp only [List.length_cons] at hvs; omega
      have hp : (front.take (padding offset)).length = padding offset := by
        rw [List.length_take, hfront]; omega
      have hspell : (Opcode.tableSwitch :: rest).take n =
          spell (front.take (padding offset)) (.tableSwitch fallback low' high' ds) := by
        rw [hn1, List.take_succ_cons, hf, spell, ← hwords, List.take_append_drop]
      -- the bounds in the spelling are the ones that gave the length
      have hsame : Opcode.tableSwitch :: rest = (Opcode.tableSwitch :: front.take (padding offset)) ++
          (bytesOfInt32 fallback ++ (bytesOfInt32 low' ++ (bytesOfInt32 high' ++ (ds.flatMap bytesOfInt32 ++
            (Opcode.tableSwitch :: rest).drop n)))) := by
        conv_lhs => rw [← List.take_append_drop n (Opcode.tableSwitch :: rest), hspell]
        simp [spell]
      have d4 : ∀ (v : Int32) (l : List UInt8), (bytesOfInt32 v ++ l).drop 4 = l := fun _ _ => rfl
      have elow : low' = low := by
        rw [hsame, ← List.drop_drop, List.drop_left' (by rw [List.length_cons, hp]; omega), d4,
          int32?_bytesOfInt32] at hlow
        exact Option.some.inj hlow
      have ehigh : high' = high := by
        rw [hsame, show 1 + padding offset + 8 = 1 + padding offset + 4 + 4 by omega, ← List.drop_drop,
          ← List.drop_drop, List.drop_left' (by rw [List.length_cons, hp]; omega), d4, d4,
          int32?_bytesOfInt32] at hhigh
        exact Option.some.inj hhigh
      refine ⟨.tableSwitch fallback low' high' ds, front.take (padding offset), ⟨?_, ?_⟩, hp, hspell⟩
      · rw [elow, ehigh, hds, hcount]
      · omega
    | [], hvs | [_], hvs | [_, _], hvs =>
      simp only [List.length_cons, List.length_nil] at hvs
      omega

theorem exists_spell_lookupSwitch {rest : List UInt8} {n : Nat}
    (h : lookupSwitchLength? offset (Opcode.lookupSwitch :: rest) = .ok n)
    (hn : ((Opcode.lookupSwitch :: rest).take n).length = n) :
    ∃ i pad, WellFormed i ∧ pad.length = padding offset ∧ (Opcode.lookupSwitch :: rest).take n = i.spell pad := by
  simp only [lookupSwitchLength?] at h
  split at h
  case h_2 => cases h
  case h_1 count hcount =>
    split_ifs at h with hc
    simp only [Except.ok.injEq] at h
    obtain ⟨m, hm⟩ : ∃ m : Nat, count.toInt = m := ⟨_, (Int.toNat_of_nonneg hc).symm⟩
    rw [hm, Int.toNat_natCast] at h
    have hn1 : n = (8 + padding offset + m * 8) + 1 := by omega
    have hfront : (rest.take (8 + padding offset + m * 8)).length = 8 + padding offset + m * 8 := by
      simpa [hn1] using hn
    generalize hf : rest.take (8 + padding offset + m * 8) = front at hfront
    obtain ⟨vs, hvs, hwords⟩ := exists_flatMap_bytesOfInt32 (2 + 2 * m) (front.drop (padding offset))
      (by rw [List.length_drop, hfront]; omega)
    match vs, hvs with
    | fallback :: count' :: more, hvs =>
      obtain ⟨cases, hcases, rfl⟩ := exists_unpair m more (by simp only [List.length_cons] at hvs; omega)
      have hp : (front.take (padding offset)).length = padding offset := by
        rw [List.length_take, hfront]; omega
      have hspell : (Opcode.lookupSwitch :: rest).take n =
          spell (front.take (padding offset)) (.lookupSwitch fallback count' cases) := by
        rw [hn1, List.take_succ_cons, hf, spell, ← hwords, List.take_append_drop]
      have hsame : Opcode.lookupSwitch :: rest = (Opcode.lookupSwitch :: front.take (padding offset)) ++
          (bytesOfInt32 fallback ++ (bytesOfInt32 count' ++ ((unpair cases).flatMap bytesOfInt32 ++
            (Opcode.lookupSwitch :: rest).drop n))) := by
        conv_lhs => rw [← List.take_append_drop n (Opcode.lookupSwitch :: rest), hspell]
        simp [spell]
      have d4 : ∀ (v : Int32) (l : List UInt8), (bytesOfInt32 v ++ l).drop 4 = l := fun _ _ => rfl
      have ecount : count' = count := by
        rw [hsame, ← List.drop_drop, List.drop_left' (by rw [List.length_cons, hp]; omega), d4,
          int32?_bytesOfInt32] at hcount
        exact Option.some.inj hcount
      refine ⟨.lookupSwitch fallback count' cases, front.take (padding offset), ?_, hp, hspell⟩
      show count'.toInt = cases.length
      rw [ecount, hcases, hm]
    | [], hvs | [_], hvs =>
      simp only [List.length_cons, List.length_nil] at hvs
      omega

theorem exists_spell_fixed {opcode : UInt8} {rest : List UInt8} {n : Nat} (ht : opcode ≠ Opcode.tableSwitch)
    (hl : opcode ≠ Opcode.lookupSwitch) (hw : opcode ≠ Opcode.wide) (h : Opcode.fixedLength? opcode = some n)
    (hn : ((opcode :: rest).take n).length = n) :
    ∃ i, WellFormed i ∧ ∀ pad, (opcode :: rest).take n = i.spell pad := by
  obtain ⟨m, rfl⟩ : ∃ m, n = m + 1 := ⟨n - 1, by have := Opcode.fixedLength?_pos opcode n h; omega⟩
  rw [List.take_succ_cons] at hn ⊢
  have hm : (rest.take m).length = m := by simpa using hn
  by_cases hb : Opcode.isBranch opcode = true
  · rw [(Opcode.of_isBranch opcode hb).1, Option.some.injEq] at h
    obtain rfl : m = 2 := by omega
    match rest, hm with
    | a :: b :: rest, _ =>
      refine ⟨.branch opcode (UInt16.ofNat (a.toNat * 256 + b.toNat)).toInt16, hb, fun pad => ?_⟩
      rw [spell, UInt16.toUInt16_toInt16, Decoder.bytes16_of_u16]
      rfl
  · by_cases hwb : Opcode.isWideBranch opcode = true
    · rw [(Opcode.of_isWideBranch opcode hwb).1, Option.some.injEq] at h
      obtain rfl : m = 4 := by omega
      obtain ⟨vs, hvs, hwords⟩ := exists_flatMap_bytesOfInt32 1 _ hm
      match vs, hvs with
      | [v], _ =>
        refine ⟨.wideBranch opcode v, hwb, fun pad => ?_⟩
        rw [hwords, spell]
        simp
    · refine ⟨.plain opcode (rest.take m), ⟨by simpa using hb, by simpa using hwb, ht, hl, ?_⟩, fun pad => rfl⟩
      rw [if_neg hw, h, hm, Nat.add_comm]

theorem exists_spell_wide {rest : List UInt8} {n : Nat} (h : wideLength? (Opcode.wide :: rest) = .ok n)
    (hn : ((Opcode.wide :: rest).take n).length = n) :
    ∃ i, WellFormed i ∧ ∀ pad, (Opcode.wide :: rest).take n = i.spell pad := by
  match rest, h with
  | inner :: rest, h =>
    simp only [wideLength?, Except.ok.injEq] at h
    obtain ⟨m, rfl⟩ : ∃ m, n = m + 2 := ⟨n - 2, by split_ifs at h <;> omega⟩
    rw [List.take_succ_cons, List.take_succ_cons] at hn ⊢
    refine ⟨.plain Opcode.wide (inner :: rest.take m), ⟨by decide, by decide, by decide, by decide, ?_⟩, fun pad => rfl⟩
    rw [if_pos rfl]
    refine ⟨inner, rest.take m, rfl, ?_⟩
    simp only [List.length_cons] at hn
    split_ifs at h ⊢ <;> omega

/-- The bytes that the length claims are a spelling of a well-formed instruction. -/
theorem exists_spell {bytes : List UInt8} {n : Nat} (h : length? offset bytes = .ok n)
    (hn : (bytes.take n).length = n) :
    ∃ i pad, WellFormed i ∧ pad.length = padding offset ∧ bytes.take n = i.spell pad := by
  have zeros : (List.replicate (padding offset) (0 : UInt8)).length = padding offset := List.length_replicate
  match bytes, h with
  | opcode :: rest, h =>
    simp only [length?] at h
    split_ifs at h with ht hl hw
    · subst ht
      exact exists_spell_tableSwitch h hn
    · subst hl
      exact exists_spell_lookupSwitch h hn
    · subst hw
      obtain ⟨i, hi, hs⟩ := exists_spell_wide h hn
      exact ⟨i, _, hi, zeros, hs _⟩
    · split at h
      case h_2 => cases h
      case h_1 length hlength =>
        cases h
        obtain ⟨i, hi, hs⟩ := exists_spell_fixed ht hl hw hlength hn
        exact ⟨i, _, hi, zeros, hs _⟩

end Decoding

/-- Decoding takes exactly a spelling of a well-formed instruction off the front. -/
theorem decode_eq_ok_iff {offset : Nat} {bytes rest : List UInt8} {i : Instruction} :
    decode offset bytes = .ok (i, rest) ↔
      i.WellFormed ∧ ∃ pad, pad.length = padding offset ∧ bytes = i.spell pad ++ rest := by
  constructor
  · intro h
    unfold decode at h
    split at h
    · cases h
    · next n hlength =>
      simp only [List.splitAt_eq] at h
      split_ifs at h with hn
      cases h
      obtain ⟨i, pad, hi, hp, hs⟩ := exists_spell hlength hn.2
      rw [hs, ofBytes_spell hp hi]
      exact ⟨hi, pad, hp, by rw [← hs, List.take_append_drop]⟩
  · rintro ⟨hi, pad, hp, rfl⟩
    have hlen := length_spell hp i
    have hpos := size_pos offset i
    simp only [decode, length?_spell hp hi, List.splitAt_eq, List.take_left' hlen, List.drop_left' hlen]
    rw [if_pos ⟨hpos, hlen⟩, ofBytes_spell hp hi]

end Instruction

/-! ## Whole code -/

/-- The offset behind an instruction. -/
def Placed.next (p : Placed) : Nat := p.offset + p.instruction.size p.offset

/-- The bytes, which start at `offset`, are spellings of the instructions, one behind the other. -/
inductive Tiles : Nat → List UInt8 → List Placed → Prop
  | nil (offset : Nat) : Tiles offset [] []
  | cons {offset : Nat} {i : Instruction} {pad rest : List UInt8} {ps : List Placed} :
      i.WellFormed → pad.length = Instruction.padding offset → Tiles (offset + i.size offset) rest ps →
        Tiles offset (i.spell pad ++ rest) (⟨offset, i⟩ :: ps)

namespace Tiles

theorem nil_iff {offset : Nat} {ps : List Placed} : Tiles offset [] ps ↔ ps = [] := by
  constructor
  · intro h
    generalize hbytes : ([] : List UInt8) = bytes at h
    cases h with
    | nil => rfl
    | @cons _ i pad rest ps hi hp _ =>
      have hlen := congrArg List.length hbytes
      rw [List.length_append, Instruction.length_spell hp, List.length_nil] at hlen
      have := Instruction.size_pos offset i
      omega
  · rintro rfl
    exact .nil offset

end Tiles

namespace Placed

theorem decodeOnto_eq_ok_iff {offset : Nat} {found ps : List Placed} {bytes : List UInt8} :
    decodeOnto offset found bytes = .ok ps ↔ ∃ qs, Tiles offset bytes qs ∧ ps = found.reverse ++ qs := by
  fun_induction decodeOnto offset found bytes with
  | case1 offset found bytes hempty =>
    rw [List.isEmpty_iff] at hempty
    subst hempty
    constructor
    · intro h
      cases h
      exact ⟨[], .nil _, by simp⟩
    · rintro ⟨qs, ht, rfl⟩
      rw [Tiles.nil_iff] at ht
      simp [ht]
  | case2 offset found bytes hne error h =>
    constructor
    · intro h
      cases h
    · rintro ⟨qs, ht, rfl⟩
      cases ht with
      | nil => simp at hne
      | cons hi hp _ =>
        rw [Instruction.decode_eq_ok_iff.2 ⟨hi, _, hp, rfl⟩] at h
        cases h
  | case3 offset found bytes hne i rest h ih =>
    obtain ⟨hi, pad, hp, rfl⟩ := Instruction.decode_eq_ok_iff.1 h
    rw [ih]
    constructor
    · rintro ⟨qs, ht, rfl⟩
      exact ⟨⟨offset, i⟩ :: qs, .cons hi hp ht, by simp⟩
    · rintro ⟨qs, ht, rfl⟩
      generalize hbytes : i.spell pad ++ rest = bytes at ht
      cases ht with
      | nil => simp [hbytes] at hne
      | @cons _ j pad' rest' qs hj hp' ht =>
        rw [hbytes, Instruction.decode_eq_ok_iff.2 ⟨hj, pad', hp', rfl⟩] at h
        cases h
        exact ⟨qs, ht, by simp⟩

/-- Code decodes to the instructions that tile it. -/
theorem decodeAll_eq_ok_iff {code : List UInt8} {ps : List Placed} : decodeAll code = .ok ps ↔ Tiles 0 code ps := by
  simp [decodeAll, decodeOnto_eq_ok_iff]

end Placed

end Registrar
