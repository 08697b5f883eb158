import Registrar.Code.Insert
import Registrar.Proofs.Results
import Registrar.Proofs.Tiling

/-!
# Relocations as relations

A `Relocation` says where the targets and the instructions of a code go. What it means that an instruction, a handler
or an entry of a table moved along is stated for any relocation (`Instruction.Moved`, `Handler.Moved`, ...), and the
functions that move them are shown to compute just that (`relocate_eq_ok_iff`) for the relocation of a layout.
`Relocation.comp` is one relocation after another; what moved along both moved along their composition
(`Moved.trans`).
-/

namespace Registrar

/-- Where old offsets go. -/
@[ext]
structure Relocation where
  /-- New targets of what pointed at an old offset. -/
  target : Nat → Nat → Prop
  /-- New offsets of the instruction at an old offset. -/
  instruction : Nat → Nat → Prop

namespace Relocation

/-- One relocation after another. -/
def comp (R S : Relocation) : Relocation where
  target o n := ∃ m, R.target o m ∧ S.target m n
  instruction o n := ∃ m, R.instruction o m ∧ S.instruction m n

/-- The relocation keeps targets apart and in order, and all new offsets have 16 bits. -/
structure Fits (R : Relocation) : Prop where
  target_lt {t t' : Nat} : R.target t t' → t' < 0x10000
  instruction_lt {o o' : Nat} : R.instruction o o' → o' < 0x10000
  target_strictMono {t t' u u' : Nat} : R.target t t' → R.target u u' → t < u → t' < u'
  target_unique {t t' u' : Nat} : R.target t t' → R.target t u' → t' = u'

theorem Fits.target_mono {R : Relocation} (h : R.Fits) {t t' u u' : Nat} (ht : R.target t t') (hu : R.target u u')
    (htu : t ≤ u) : t' ≤ u' := by
  rcases Nat.lt_or_eq_of_le htu with hlt | rfl
  · exact Nat.le_of_lt (h.target_strictMono ht hu hlt)
  · exact Nat.le_of_eq (h.target_unique ht hu)

end Relocation

/-- The relocation of a layout. -/
def Layout.relocation (layout : Layout) : Relocation where
  target o n := layout.target o = .ok n
  instruction o n := layout.instruction o = .ok n

theorem Layout.narrow_eq_ok_iff {value : Nat} {v : UInt16} : Layout.narrow value = .ok v ↔ value = v.toNat := by
  unfold Layout.narrow
  split_ifs with h
  · rw [Except.ok.injEq]
    constructor
    · rintro rfl
      exact (UInt16.toNat_ofNat_of_lt' h).symm
    · rintro rfl
      exact UInt16.ofNat_toNat
  · constructor
    · intro hn
      cases hn
    · rintro rfl
      exact absurd v.toNat_lt h

theorem Layout.target16_eq_ok_iff {layout : Layout} {o n : UInt16} :
    layout.target16 o = .ok n ↔ layout.relocation.target o.toNat n.toNat := by
  simp only [target16, Except.bind_eq_ok_iff, narrow_eq_ok_iff, relocation, exists_eq_right]

/-! ## Instructions -/

namespace Instruction

/-- A distance from `old` and one from `new` lead to an old target and its new place. No value wraps around. -/
def LeadsAlong (T : Nat → Nat → Prop) (old new : Nat) (distance distance' : Int) : Prop :=
  ∃ t t' : Nat, (old : Int) + distance = t ∧ (new : Int) + distance' = t' ∧ T t t'

/-- The instruction at `new` stands for the one at `old`: it has the same opcode and operands, and each of its
distances leads to where the old one leads. -/
inductive Moved (T : Nat → Nat → Prop) (old new : Nat) : Instruction → Instruction → Prop
  | plain (opcode : UInt8) (operands : List UInt8) : Moved T old new (.plain opcode operands) (.plain opcode operands)
  | branch {opcode : UInt8} {d d' : Int16} : LeadsAlong T old new d.toInt d'.toInt →
      Moved T old new (.branch opcode d) (.branch opcode d')
  | wideBranch {opcode : UInt8} {d d' : Int32} : LeadsAlong T old new d.toInt d'.toInt →
      Moved T old new (.wideBranch opcode d) (.wideBranch opcode d')
  | tableSwitch {fallback fallback' low high : Int32} {ds ds' : List Int32} :
      LeadsAlong T old new fallback.toInt fallback'.toInt →
      List.Forall₂ (fun d d' : Int32 => LeadsAlong T old new d.toInt d'.toInt) ds ds' →
      Moved T old new (.tableSwitch fallback low high ds) (.tableSwitch fallback' low high ds')
  | lookupSwitch {fallback fallback' count : Int32} {cases cases' : List (Int32 × Int32)} :
      LeadsAlong T old new fallback.toInt fallback'.toInt →
      List.Forall₂ (fun c c' : Int32 × Int32 => c'.1 = c.1 ∧ LeadsAlong T old new c.2.toInt c'.2.toInt) cases cases' →
      Moved T old new (.lookupSwitch fallback count cases) (.lookupSwitch fallback' count cases')

section
variable {layout : Layout} {old new : Nat}

theorem relocateDistance_eq_ok_iff {d m : Int} :
    relocateDistance layout old new d = .ok m ↔ LeadsAlong layout.relocation.target old new d m := by
  simp only [relocateDistance, LeadsAlong, Layout.relocation]
  constructor
  · intro h
    split_ifs at h with hneg
    cases ht : layout.target ((old : Int) + d).toNat with
    | error e => simp [ht] at h
    | ok place =>
      simp only [ht, Except.ok.injEq] at h
      exact ⟨_, place, (Int.toNat_of_nonneg (by omega)).symm, by omega, ht⟩
  · rintro ⟨t, t', ht, hm, hT⟩
    rw [if_neg (by omega), ht, Int.toNat_natCast, hT]
    simp only [Except.ok.injEq]
    omega

/-- With targets of 16 bits no distance of a switch loses bits. -/
theorem relocateDistance32_eq_ok_iff (hfits : layout.relocation.Fits) (hnew : new < 0x10000) {d d' : Int32} :
    relocateDistance32 layout old new d = .ok d' ↔
      LeadsAlong layout.relocation.target old new d.toInt d'.toInt := by
  simp only [relocateDistance32, Except.bind_eq_ok_iff, Except.pure_eq_ok_iff, relocateDistance_eq_ok_iff]
  constructor
  · rintro ⟨m, ⟨t, t', ht, hm, hT⟩, rfl⟩
    have hlt := hfits.target_lt hT
    refine ⟨t, t', ht, ?_, hT⟩
    rw [Int32.toInt_ofInt_of_le (by omega) (by omega)]
    exact hm
  · intro h
    exact ⟨_, h, Int32.ofInt_toInt d'⟩

theorem relocate_eq_ok_iff (hfits : layout.relocation.Fits) (hnew : new < 0x10000) {i i' : Instruction} :
    i.relocate layout old new = .ok i' ↔ Moved layout.relocation.target old new i i' := by
  constructor
  · intro h
    cases i with
    | plain opcode operands =>
      cases h
      exact .plain opcode operands
    | branch opcode d =>
      simp only [relocate, Except.bind_eq_ok_iff, relocateDistance_eq_ok_iff] at h
      obtain ⟨m, hm, h⟩ := h
      split_ifs at h with hlow hhigh
      rw [Except.pure_eq_ok_iff] at h
      subst h
      refine .branch ?_
      rwa [Int16.toInt_ofInt_of_le (by omega) (by omega)]
    | wideBranch opcode d =>
      simp only [relocate, Except.bind_eq_ok_iff, relocateDistance_eq_ok_iff] at h
      obtain ⟨m, hm, h⟩ := h
      split_ifs at h with hlow hhigh
      rw [Except.pure_eq_ok_iff] at h
      subst h
      refine .wideBranch ?_
      rwa [Int32.toInt_ofInt_of_le (by omega) (by omega)]
    | tableSwitch fallback low high ds =>
      simp only [relocate, Except.bind_eq_ok_iff, Except.pure_eq_ok_iff, Except.mapM_eq_ok_iff,
        relocateDistance32_eq_ok_iff hfits hnew] at h
      obtain ⟨fallback', hf, ds', hds, rfl⟩ := h
      exact .tableSwitch hf hds
    | lookupSwitch fallback count cases =>
      simp only [relocate, Except.bind_eq_ok_iff, Except.pure_eq_ok_iff, Except.mapM_eq_ok_iff,
        relocateDistance32_eq_ok_iff hfits hnew] at h
      obtain ⟨fallback', hf, cases', hcases, rfl⟩ := h
      refine .lookupSwitch hf (hcases.imp ?_)
      rintro c c' ⟨d, hd, rfl⟩
      exact ⟨rfl, hd⟩
  · intro h
    cases h with
    | plain opcode operands => rfl
    | @branch opcode d d' hd =>
      have hmin := d'.le_toInt
      have hmax := d'.toInt_lt
      simp only [relocate, Except.bind_eq_ok_iff, relocateDistance_eq_ok_iff]
      refine ⟨_, hd, ?_⟩
      rw [if_neg (by omega), if_neg (by omega), Except.pure_eq_ok_iff, Int16.ofInt_toInt]
    | @wideBranch opcode d d' hd =>
      have hmin := d'.le_toInt
      have hmax := d'.toInt_lt
      simp only [relocate, Except.bind_eq_ok_iff, relocateDistance_eq_ok_iff]
      refine ⟨_, hd, ?_⟩
      rw [if_neg (by omega), if_neg (by omega), Except.pure_eq_ok_iff, Int32.ofInt_toInt]
    | tableSwitch hf hds =>
      simp only [relocate, Except.bind_eq_ok_iff, Except.pure_eq_ok_iff, Except.mapM_eq_ok_iff,
        relocateDistance32_eq_ok_iff hfits hnew]
      exact ⟨_, hf, _, hds, rfl⟩
    | lookupSwitch hf hcases =>
      simp only [relocate, Except.bind_eq_ok_iff, Except.pure_eq_ok_iff, Except.mapM_eq_ok_iff,
        relocateDistance32_eq_ok_iff hfits hnew]
      refine ⟨_, hf, _, hcases.imp ?_, rfl⟩
      rintro ⟨key, d⟩ ⟨key', d'⟩ ⟨rfl, hd⟩
      exact ⟨d', hd, rfl⟩

end

/-! ## What moving leaves alone -/

section
variable {T : Nat → Nat → Prop} {old new : Nat} {i i' : Instruction}

theorem Moved.size (h : Moved T old new i i') (offset : Nat) : i'.size offset = i.size offset := by
  cases h with
  | plain | branch | wideBranch => rfl
  | tableSwitch _ hds => simp only [Instruction.size, hds.length_eq]
  | lookupSwitch _ hcases => simp only [Instruction.size, hcases.length_eq]

theorem Moved.opcode (h : Moved T old new i i') : i'.opcode = i.opcode := by
  cases h <;> rfl

theorem Moved.isReturn (h : Moved T old new i i') : i'.isReturn = i.isReturn := by
  rw [Instruction.isReturn, Instruction.isReturn, h.opcode]

theorem Moved.wellFormed (h : Moved T old new i i') (hi : i.WellFormed) : i'.WellFormed := by
  cases h with
  | plain | branch | wideBranch => exact hi
  | tableSwitch _ hds => exact ⟨hds.length_eq ▸ hi.1, hds.length_eq ▸ hi.2⟩
  | lookupSwitch _ hcases =>
    have hc : _ = _ := hi
    exact hc.trans (congrArg Nat.cast hcases.length_eq)

theorem LeadsAlong.trans {U : Nat → Nat → Prop} {mid : Nat} {d d' d'' : Int} (h : LeadsAlong T old mid d d')
    (h' : LeadsAlong U mid new d' d'') : LeadsAlong (fun o n => ∃ m, T o m ∧ U m n) old new d d'' := by
  obtain ⟨t, t', ht, ht', hT⟩ := h
  obtain ⟨u, u', hu, hu', hU⟩ := h'
  obtain rfl : u = t' := by omega
  exact ⟨t, u', ht, hu', u, hT, hU⟩

theorem LeadsAlong.mono {U : Nat → Nat → Prop} {d d' : Int} (h : LeadsAlong T old new d d')
    (hTU : ∀ t t', T t t' → U t t') : LeadsAlong U old new d d' := by
  obtain ⟨t, t', ht, ht', hT⟩ := h
  exact ⟨t, t', ht, ht', hTU t t' hT⟩

theorem Moved.trans {U : Nat → Nat → Prop} {mid : Nat} {i'' : Instruction} (h : Moved T old mid i i')
    (h' : Moved U mid new i' i'') : Moved (fun o n => ∃ m, T o m ∧ U m n) old new i i'' := by
  cases h with
  | plain =>
    cases h'
    exact .plain _ _
  | branch hd =>
    cases h' with
    | branch hd' => exact .branch (hd.trans hd')
  | wideBranch hd =>
    cases h' with
    | wideBranch hd' => exact .wideBranch (hd.trans hd')
  | tableSwitch hf hds =>
    cases h' with
    | tableSwitch hf' hds' =>
      exact .tableSwitch (hf.trans hf') (List.forall₂_trans_of (fun _ _ _ hd hd' => hd.trans hd') hds hds')
  | lookupSwitch hf hcs =>
    cases h' with
    | lookupSwitch hf' hcs' =>
      refine .lookupSwitch (hf.trans hf') (List.forall₂_trans_of (fun _ _ _ hc hc' => ?_) hcs hcs')
      exact ⟨hc'.1.trans hc.1, hc.2.trans hc'.2⟩

theorem Moved.mono {U : Nat → Nat → Prop} (h : Moved T old new i i') (hTU : ∀ t t', T t t' → U t t') :
    Moved U old new i i' := by
  cases h with
  | plain => exact .plain _ _
  | branch hd => exact .branch (hd.mono hTU)
  | wideBranch hd => exact .wideBranch (hd.mono hTU)
  | tableSwitch hf hds => exact .tableSwitch (hf.mono hTU) (hds.imp fun _ _ hd => hd.mono hTU)
  | lookupSwitch hf hcs => exact .lookupSwitch (hf.mono hTU) (hcs.imp fun _ _ hc => ⟨hc.1, hc.2.mono hTU⟩)

end

end Instruction

end Registrar
