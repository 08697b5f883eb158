import Registrar.Proofs.Tiling

/-!
# Boundaries of instructions

The instruction set by its lengths alone, and decoding against it.

* `Opcode.lengths` : the lengths that the opcode alone decides;
* `IsInstruction offset front` : `front` is one whole instruction that starts at `offset`;
* `Splits offset bytes starts` : the bytes, which start at `offset`, are whole instructions with these starts;
* `Placed.offsets?` : the starts that decoding finds;
* `isInstruction_iff`, `splits_iff` : whole instructions are what decodes;
* `Splits.append` : code without switches can be put behind other code.
-/

namespace Registrar

/-! ## The instruction set -/

/-- The lengths of the instructions whose length the opcode decides, sixteen opcodes a row. There is a 0 at the
switches, at `wide` and where no instruction is. -/
def Opcode.lengths : List (List Nat) :=
  [[1, 1, 1, 1, 1, 1, 1, 1, 1, 1, 1, 1, 1, 1, 1, 1],
   [2, 3, 2, 3, 3, 2, 2, 2, 2, 2, 1, 1, 1, 1, 1, 1],
   [1, 1, 1, 1, 1, 1, 1, 1, 1, 1, 1, 1, 1, 1, 1, 1],
   [1, 1, 1, 1, 1, 1, 2, 2, 2, 2, 2, 1, 1, 1, 1, 1],
   [1, 1, 1, 1, 1, 1, 1, 1, 1, 1, 1, 1, 1, 1, 1, 1],
   [1, 1, 1, 1, 1, 1, 1, 1, 1, 1, 1, 1, 1, 1, 1, 1],
   [1, 1, 1, 1, 1, 1, 1, 1, 1, 1, 1, 1, 1, 1, 1, 1],
   [1, 1, 1, 1, 1, 1, 1, 1, 1, 1, 1, 1, 1, 1, 1, 1],
   [1, 1, 1, 1, 3, 1, 1, 1, 1, 1, 1, 1, 1, 1, 1, 1],
   [1, 1, 1, 1, 1, 1, 1, 1, 1, 3, 3, 3, 3, 3, 3, 3],
   [3, 3, 3, 3, 3, 3, 3, 3, 3, 2, 0, 0, 1, 1, 1, 1],
   [1, 1, 3, 3, 3, 3, 3, 3, 3, 5, 5, 3, 2, 3, 1, 1],
   [3, 3, 1, 1, 0, 4, 3, 3, 5, 5, 1, 0, 0, 0, 0, 0],
   [0, 0, 0, 0, 0, 0, 0, 0, 0, 0, 0, 0, 0, 0, 0, 0],
   [0, 0, 0, 0, 0, 0, 0, 0, 0, 0, 0, 0, 0, 0, 0, 0],
   [0, 0, 0, 0, 0, 0, 0, 0, 0, 0, 0, 0, 0, 0, 1, 1]]

/-- The length that the opcode decides, 0 when it decides none. -/
def Opcode.length (opcode : UInt8) : Nat := Opcode.lengths.flatten.getD opcode.toNat 0

theorem Opcode.fixedLength?_eq_some_iff {n : Nat} (hn : 0 < n) :
    ∀ opcode : UInt8, fixedLength? opcode = some n ↔ Opcode.length opcode = n := by
  have h : ∀ opcode : UInt8, fixedLength? opcode =
      if Opcode.length opcode = 0 then none else some (Opcode.length opcode) := forall_of_byte (by decide +kernel)
  intro opcode
  rw [h]
  split_ifs with h0
  · simp only [h0, false_iff]
    omega
  · rw [Option.some.injEq]

theorem Opcode.of_length_pos : ∀ opcode : UInt8, 0 < Opcode.length opcode →
    opcode ≠ tableSwitch ∧ opcode ≠ lookupSwitch ∧ opcode ≠ wide :=
  forall_of_byte (by decide +kernel)

open Instruction (bytesOfInt32)

/-- The bytes are one whole instruction, whose opcode is at `offset`. The tables of a switch start at a multiple of
four. -/
inductive IsInstruction (offset : Nat) : List UInt8 → Prop
  /-- The opcode decides the length. -/
  | fixed {opcode : UInt8} {operands : List UInt8} :
      Opcode.length opcode = operands.length + 1 → IsInstruction offset (opcode :: operands)
  /-- A local variable and a constant, of 16 bits each. -/
  | wideIinc {operands : List UInt8} :
      operands.length = 4 → IsInstruction offset (Opcode.wide :: Opcode.iinc :: operands)
  /-- A local variable of 16 bits. -/
  | wide {inner : UInt8} {operands : List UInt8} :
      inner ≠ Opcode.iinc → operands.length = 2 → IsInstruction offset (Opcode.wide :: inner :: operands)
  /-- A fallback, the least and the greatest key, and a target for each key. -/
  | tableSwitch {pad targets : List UInt8} {fallback low high : Int32} :
      pad.length < 4 → 4 ∣ offset + 1 + pad.length →
      0 ≤ high.toInt - low.toInt + 1 → high.toInt - low.toInt + 1 < 0x80000000 →
      (targets.length : Int) = 4 * (high.toInt - low.toInt + 1) →
      IsInstruction offset
        (Opcode.tableSwitch :: (pad ++ (bytesOfInt32 fallback ++ (bytesOfInt32 low ++ (bytesOfInt32 high ++ targets)))))
  /-- A fallback, the number of pairs, and that many keys with their targets. -/
  | lookupSwitch {pad pairs : List UInt8} {fallback count : Int32} :
      pad.length < 4 → 4 ∣ offset + 1 + pad.length →
      0 ≤ count.toInt → (pairs.length : Int) = 8 * count.toInt →
      IsInstruction offset
        (Opcode.lookupSwitch :: (pad ++ (bytesOfInt32 fallback ++ (bytesOfInt32 count ++ pairs))))

/-- The bytes, the first of which is at `offset`, are whole instructions one behind the other, with these starts. -/
inductive Splits : Nat → List UInt8 → List Nat → Prop
  | nil (offset : Nat) : Splits offset [] []
  | cons {offset : Nat} {front rest : List UInt8} {starts : List Nat} :
      IsInstruction offset front → Splits (offset + front.length) rest starts →
        Splits offset (front ++ rest) (offset :: starts)

/-- The offsets of the instructions of a whole code. -/
def Placed.offsets? (code : List UInt8) : Except InstructionError (List Nat) :=
  (Placed.decodeAll code).map fun ps => ps.map (·.offset)

/-! ## Whole instructions decode -/

theorem Instruction.length_pad_iff {offset : Nat} {pad : List UInt8} :
    pad.length = padding offset ↔ pad.length < 4 ∧ 4 ∣ offset + 1 + pad.length := by
  unfold padding
  omega

namespace IsInstruction
variable {offset : Nat}

open Instruction (padding)

theorem exists_spell {front : List UInt8} (h : IsInstruction offset front) :
    ∃ i pad, Instruction.WellFormed i ∧ pad.length = padding offset ∧ front = i.spell pad := by
  have zeros : (List.replicate (padding offset) (0 : UInt8)).length = padding offset := List.length_replicate
  cases h with
  | @fixed opcode operands hlength =>
    obtain ⟨ht, hl, hw⟩ := Opcode.of_length_pos opcode (by omega)
    have hfixed := (Opcode.fixedLength?_eq_some_iff (Nat.succ_pos _) opcode).2 hlength
    have hall : ((opcode :: operands).take (operands.length + 1)).length = operands.length + 1 := by simp
    obtain ⟨i, hi, hs⟩ := Instruction.exists_spell_fixed ht hl hw hfixed hall
    exact ⟨i, _, hi, zeros, by simpa using hs _⟩
  | @wideIinc operands hlength =>
    refine ⟨.plain Opcode.wide (Opcode.iinc :: operands), _, ⟨by decide, by decide, by decide, by decide, ?_⟩, zeros,
      rfl⟩
    rw [if_pos rfl]
    exact ⟨_, _, rfl, by simpa using hlength⟩
  | @wide inner operands hinner hlength =>
    refine ⟨.plain Opcode.wide (inner :: operands), _, ⟨by decide, by decide, by decide, by decide, ?_⟩, zeros, rfl⟩
    rw [if_pos rfl]
    exact ⟨_, _, rfl, by simpa [hinner] using hlength⟩
  | @tableSwitch pad targets fallback low high hpad hfour hnonneg hbound htargets =>
    obtain ⟨ds, hds, rfl⟩ :=
      Instruction.exists_flatMap_bytesOfInt32 (high.toInt - low.toInt + 1).toNat targets (by omega)
    exact ⟨.tableSwitch fallback low high ds, pad, ⟨by omega, by omega⟩, Instruction.length_pad_iff.2 ⟨hpad, hfour⟩,
      by simp [Instruction.spell]⟩
  | @lookupSwitch pad pairs fallback count hpad hfour hnonneg hpairs =>
    obtain ⟨vs, hvs, rfl⟩ := Instruction.exists_flatMap_bytesOfInt32 (2 * count.toInt.toNat) pairs (by omega)
    obtain ⟨cases, hcases, rfl⟩ := Instruction.exists_unpair count.toInt.toNat vs hvs
    refine ⟨.lookupSwitch fallback count cases, pad, ?_, Instruction.length_pad_iff.2 ⟨hpad, hfour⟩,
      by simp [Instruction.spell]⟩
    show count.toInt = cases.length
    omega

theorem of_spell {i : Instruction} {pad : List UInt8} (hi : i.WellFormed) (hp : pad.length = padding offset) :
    IsInstruction offset (i.spell pad) := by
  obtain ⟨hpad, hfour⟩ := Instruction.length_pad_iff.1 hp
  cases i with
  | plain opcode operands =>
    obtain ⟨-, -, -, -, h⟩ := hi
    by_cases hw : opcode = Opcode.wide
    · rw [if_pos hw] at h
      obtain ⟨inner, rest, rfl, hrest⟩ := h
      subst hw
      by_cases hinner : inner = Opcode.iinc
      · subst hinner
        exact .wideIinc (by simpa using hrest)
      · exact .wide hinner (by simpa [hinner] using hrest)
    · rw [if_neg hw, Opcode.fixedLength?_eq_some_iff (by omega)] at h
      exact .fixed (by omega)
  | branch opcode distance =>
    have h := (Opcode.of_isBranch opcode hi).1
    rw [Opcode.fixedLength?_eq_some_iff (by omega)] at h
    exact .fixed h
  | wideBranch opcode distance =>
    have h := (Opcode.of_isWideBranch opcode hi).1
    rw [Opcode.fixedLength?_eq_some_iff (by omega)] at h
    exact .fixed h
  | tableSwitch fallback low high ds =>
    obtain ⟨hds, hbound⟩ := hi
    have hlength := Instruction.length_flatMap_const bytesOfInt32 4 Instruction.length_bytesOfInt32 ds
    have htargets : ((ds.flatMap bytesOfInt32).length : Int) = 4 * (high.toInt - low.toInt + 1) := by omega
    simpa [Instruction.spell] using
      @tableSwitch offset pad _ fallback low high hpad hfour (by omega) (by omega) htargets
  | lookupSwitch fallback count cases =>
    have hi : count.toInt = cases.length := hi
    have hlength := Instruction.length_flatMap_const (fun c : Int32 × Int32 => bytesOfInt32 c.1 ++ bytesOfInt32 c.2) 8
      (fun _ => rfl) cases
    rw [← Instruction.flatMap_unpair] at hlength
    have hpairs : (((Instruction.unpair cases).flatMap bytesOfInt32).length : Int) = 8 * count.toInt := by omega
    simpa [Instruction.spell] using @lookupSwitch offset pad _ fallback count hpad hfour (by omega) hpairs

end IsInstruction

/-- Whole instructions are what decodes. -/
theorem isInstruction_iff {offset : Nat} {front : List UInt8} :
    IsInstruction offset front ↔
      ∃ i pad, Instruction.WellFormed i ∧ pad.length = Instruction.padding offset ∧ front = i.spell pad := by
  constructor
  · exact IsInstruction.exists_spell
  · rintro ⟨i, pad, hi, hp, rfl⟩
    exact .of_spell hi hp

theorem splits_iff {offset : Nat} {bytes : List UInt8} {starts : List Nat} :
    Splits offset bytes starts ↔ ∃ ps, Tiles offset bytes ps ∧ ps.map (·.offset) = starts := by
  constructor
  · intro h
    induction h with
    | nil offset => exact ⟨[], .nil offset, rfl⟩
    | @cons offset front rest starts hfront _ ih =>
      obtain ⟨i, pad, hi, hp, rfl⟩ := isInstruction_iff.1 hfront
      obtain ⟨ps, hps, rfl⟩ := ih
      rw [Instruction.length_spell hp] at hps
      exact ⟨⟨offset, i⟩ :: ps, .cons hi hp hps, rfl⟩
  · rintro ⟨ps, hps, rfl⟩
    induction hps with
    | nil offset => exact .nil offset
    | @cons offset i pad rest ps hi hp _ ih =>
      refine .cons (.of_spell hi hp) ?_
      rwa [Instruction.length_spell hp]

theorem Placed.offsets?_eq_ok_iff {code : List UInt8} {starts : List Nat} :
    offsets? code = .ok starts ↔ Splits 0 code starts := by
  rw [splits_iff]
  simp only [offsets?, ← decodeAll_eq_ok_iff]
  cases decodeAll code <;> simp [Except.map]

/-! ## What a split is -/

theorem IsInstruction.length?_append {offset : Nat} {front : List UInt8} (h : IsInstruction offset front)
    (rest : List UInt8) : Instruction.length? offset (front ++ rest) = .ok front.length := by
  obtain ⟨i, pad, hi, hp, rfl⟩ := isInstruction_iff.1 h
  rw [Instruction.length?_spell hp hi, Instruction.length_spell hp]

theorem IsInstruction.length_pos {offset : Nat} {front : List UInt8} (h : IsInstruction offset front) :
    0 < front.length := by
  obtain ⟨i, pad, hi, hp, rfl⟩ := isInstruction_iff.1 h
  rw [Instruction.length_spell hp]
  exact Instruction.size_pos offset i

namespace Splits

/-- Each instruction ends where the next one starts, and the last one where the bytes end. `before` are the bytes in
front of the split. -/
theorem isChain {offset : Nat} {bytes : List UInt8} {starts : List Nat} (h : Splits offset bytes starts) :
    ∀ before : List UInt8, before.length = offset →
      (starts ++ [offset + bytes.length]).IsChain fun start next =>
        start < next ∧ Instruction.length? start ((before ++ bytes).drop start) = .ok (next - start) := by
  induction h with
  | nil offset => intro before _; simp
  | @cons offset front rest starts hfront hrest ih =>
    intro before hbefore
    have ih := ih (before ++ front) (by simp [hbefore])
    have hend : offset + front.length + rest.length = offset + (front ++ rest).length := by
      rw [List.length_append, Nat.add_assoc]
    rw [List.append_assoc, hend] at ih
    have hstep : offset < offset + front.length ∧ Instruction.length? offset ((before ++ (front ++ rest)).drop offset) =
        .ok (offset + front.length - offset) := by
      have hpos := hfront.length_pos
      rw [List.drop_left' hbefore, hfront.length?_append, Nat.add_sub_cancel_left]
      exact ⟨by omega, rfl⟩
    -- the next boundary is the first start of the rest, or the end when nothing follows
    cases hrest with
    | nil => simpa using hstep
    | cons _ _ => exact .cons_cons hstep ih

theorem le_of_mem {offset : Nat} {bytes : List UInt8} {starts : List Nat} (h : Splits offset bytes starts) :
    ∀ start ∈ starts, offset ≤ start := by
  induction h with
  | nil => simp
  | cons _ _ ih =>
    intro start hstart
    rcases List.mem_cons.1 hstart with rfl | hstart
    · exact Nat.le_refl _
    · exact Nat.le_trans (Nat.le_add_right _ _) (ih start hstart)

theorem pairwise_lt {offset : Nat} {bytes : List UInt8} {starts : List Nat} (h : Splits offset bytes starts) :
    starts.Pairwise (· < ·) := by
  induction h with
  | nil => exact .nil
  | @cons offset front rest starts hfront hrest ih =>
    refine .cons (fun start hstart => ?_) ih
    have := hfront.length_pos
    have := hrest.le_of_mem start hstart
    omega

theorem append {offset : Nat} {bytes more : List UInt8} {starts later : List Nat} (h : Splits offset bytes starts)
    (hmore : Splits (offset + bytes.length) more later) : Splits offset (bytes ++ more) (starts ++ later) := by
  induction h with
  | nil offset => exact hmore
  | @cons offset front rest starts hfront _ ih =>
    rw [List.append_assoc]
    exact .cons hfront (ih (by rwa [List.length_append, ← Nat.add_assoc] at hmore))

end Splits

/-- An instruction other than a switch does not depend on its offset. -/
theorem IsInstruction.moved {offset : Nat} {front : List UInt8} (h : IsInstruction offset front)
    (htable : front.head? ≠ some Opcode.tableSwitch) (hlookup : front.head? ≠ some Opcode.lookupSwitch) (other : Nat) :
    IsInstruction other front := by
  cases h with
  | fixed hlength => exact .fixed hlength
  | wideIinc hlength => exact .wideIinc hlength
  | wide hinner hlength => exact .wide hinner hlength
  | tableSwitch => exact absurd rfl htable
  | lookupSwitch => exact absurd rfl hlookup

/-- Code without switches can start anywhere. `before` are the bytes in front of it. -/
theorem Splits.shifted {offset : Nat} {bytes : List UInt8} {starts : List Nat} (h : Splits offset bytes starts) :
    ∀ before : List UInt8, before.length = offset →
      (∀ start ∈ starts, (before ++ bytes)[start]? ≠ some Opcode.tableSwitch ∧
        (before ++ bytes)[start]? ≠ some Opcode.lookupSwitch) →
      ∀ shift, Splits (shift + offset) bytes (starts.map (shift + ·)) := by
  induction h with
  | nil offset => exact fun _ _ _ shift => .nil (shift + offset)
  | @cons offset front rest starts hfront _ ih =>
    intro before hbefore hnone shift
    have hhead : (before ++ (front ++ rest))[offset]? = front.head? := by
      have hpos := hfront.length_pos
      rw [List.getElem?_append_right (by omega), hbefore, Nat.sub_self, List.getElem?_append_left hpos,
        List.head?_eq_getElem?]
    have hfirst := hnone offset List.mem_cons_self
    rw [hhead] at hfirst
    refine .cons (hfront.moved hfirst.1 hfirst.2 _) ?_
    rw [Nat.add_assoc]
    refine ih (before ++ front) (by simp [hbefore]) (fun start hstart => ?_) shift
    rw [List.append_assoc]
    exact hnone start (List.mem_cons_of_mem _ hstart)

/-- **Boundaries.** Decoding any code gives offsets exactly when the code splits into whole instructions, and then
those of the split: they grow, the length at each of them leads to the next one, and the last instruction ends where
the code ends. When the second of two codes has no switch, the offsets of the two together are those of the first,
then those of the second behind it. -/
theorem Placed.offsets?_spec (code : List UInt8) :
    (∀ starts, offsets? code = .ok starts ↔ Splits 0 code starts) ∧
    (∀ starts, offsets? code = .ok starts →
      starts.Pairwise (· < ·) ∧
      (starts ++ [code.length]).IsChain fun start next =>
        start < next ∧ Instruction.length? start (code.drop start) = .ok (next - start)) ∧
    ∀ second starts later, offsets? code = .ok starts → offsets? second = .ok later →
      (∀ start ∈ later, second[start]? ≠ some Opcode.tableSwitch ∧ second[start]? ≠ some Opcode.lookupSwitch) →
      offsets? (code ++ second) = .ok (starts ++ later.map (code.length + ·)) := by
  refine ⟨fun starts => offsets?_eq_ok_iff, fun starts h => ?_, fun second starts later h hsecond hnone => ?_⟩
  · rw [offsets?_eq_ok_iff] at h
    have hchain := h.isChain [] rfl
    rw [Nat.zero_add, List.nil_append] at hchain
    exact ⟨h.pairwise_lt, hchain⟩
  · rw [offsets?_eq_ok_iff] at h hsecond ⊢
    refine h.append ?_
    rw [Nat.zero_add]
    exact hsecond.shifted [] rfl hnone code.length

/-- A table switch with one target between a constant and a return, and two widened instructions behind them. -/
theorem Placed.offsets?_spec_example :
    let code : List UInt8 := [0x03, 0xaa, 0, 0, 0, 0, 0, 20, 0, 0, 0, 0, 0, 0, 0, 0, 0, 0, 0, 20, 0xb1]
    let second : List UInt8 := [0xc4, 0x84, 0, 1, 0, 2, 0xc4, 0x15, 1, 0, 0xb1]
    (∃ starts, Splits 0 code starts ∧ offsets? code = .ok starts ∧ starts.Pairwise (· < ·)) ∧
    offsets? (code ++ second) = .ok [0, 1, 20, 21, 27, 31] := by
  intro code second
  have h : offsets? code = .ok [0, 1, 20] := by cbv
  have hsecond : offsets? second = .ok [0, 6, 10] := by cbv
  obtain ⟨hsplits, hstarts, happend⟩ := offsets?_spec code
  exact ⟨⟨_, (hsplits _).1 h, h, (hstarts _ h).1⟩, happend second _ _ h hsecond (by decide)⟩

end Registrar
