import Mathlib.Data.List.Pairwise
import Registrar.Proofs.Relocation

/-!
# Spliced code

What the layout of a code with insertions amounts to.

* `Insertion.bytesAt`, `Insertion.capturesAt` : what is inserted at an offset, in list order, and whether it captures
  what pointed there;
* `Splice` : one instruction of the old code, with what stands in front of it in the new code and with the instruction
  that stands for it;
* `Splice.Chain` : splices that follow each other without gaps, in the old code and in the new one;
* `Splice.relocation` : where targets and instructions go. `Chain.fits` : it keeps targets apart and in order;
* `Chain.relocation_layout` : it is the relocation of the layout.
-/

namespace Registrar

/-! ## Insertions at one offset -/

namespace Insertion

/-- The insertions at an offset, in list order. -/
def group (insertions : List Insertion) (offset : Nat) : List Insertion := insertions.filter (·.offset == offset)

/-- The bytes inserted at an offset. -/
def bytesAt (insertions : List Insertion) (offset : Nat) : List UInt8 := groupBytes (group insertions offset)

/-- Whether an insertion at an offset captures what pointed there. -/
def capturesAt (insertions : List Insertion) (offset : Nat) : Bool := (group insertions offset).any (·.capturesTargets)

theorem getD_groups (insertions : List Insertion) (offset : Nat) :
    (groups insertions).getD offset [] = group insertions offset := by
  induction insertions with
  | nil => rfl
  | cons i insertions ih =>
    have hgroups : groups (i :: insertions) =
        (groups insertions).insert i.offset (i :: (groups insertions).getD i.offset []) := rfl
    rw [hgroups, Std.TreeMap.getD_insert, group, List.filter_cons]
    by_cases h : i.offset = offset
    · subst h
      simp [ih, group]
    · simp [h, ih, group, Std.LawfulEqCmp.compare_eq_iff_eq]

theorem mem_groups {insertions : List Insertion} {offset : Nat} :
    offset ∈ groups insertions ↔ ∃ i ∈ insertions, i.offset = offset := by
  induction insertions with
  | nil => simp [groups]
  | cons i insertions ih =>
    have hgroups : groups (i :: insertions) =
        (groups insertions).insert i.offset (i :: (groups insertions).getD i.offset []) := rfl
    rw [hgroups, Std.TreeMap.mem_insert, ih, Std.LawfulEqCmp.compare_eq_iff_eq]
    simp

theorem length_groupBytes (group : List Insertion) : (groupBytes group).length = groupLength group := by
  have hfold (n : Nat) : group.foldl (fun length i => length + i.bytes.length) n = n + (groupBytes group).length := by
    unfold groupBytes
    induction group generalizing n with
    | nil => rfl
    | cons i group ih => rw [List.foldl_cons, ih, List.flatMap_cons, List.length_append, Nat.add_assoc]
  rw [groupLength, hfold, Nat.zero_add]

end Insertion

/-! ## Splices -/

/-- One instruction of a code into which other code is inserted. -/
structure Splice where
  /-- The instruction in the old code. -/
  old : Placed
  /-- Where the code inserted in front of it starts in the new code. -/
  start : Nat
  /-- The code inserted in front of it. -/
  inserted : List UInt8
  /-- Whether what pointed at the instruction points at the inserted code. -/
  captures : Bool
  /-- The instruction that stands for it in the new code. -/
  moved : Instruction

namespace Splice

/-- Where the instruction itself stands in the new code. -/
def position (s : Splice) : Nat := s.start + s.inserted.length

/-- Where what pointed at the instruction points in the new code. -/
def target (s : Splice) : Nat := if s.captures then s.start else s.position

/-- The offset behind the instruction in the new code. -/
def stop (s : Splice) : Nat := s.position + s.old.instruction.size s.position

/-- The bytes that stand for the instruction: the inserted ones, then the moved instruction with the zero padding that
its new offset needs. -/
def bytes (s : Splice) : List UInt8 := s.inserted ++ s.moved.spell (List.replicate (Instruction.padding s.position) 0)

/-- The splices of old code from `o` to `e` and of new code from `n` to `e'`, one behind the other. -/
inductive Chain (insertions : List Insertion) : Nat → Nat → List Splice → Nat → Nat → Prop
  | nil (o n : Nat) : Chain insertions o n [] o n
  | cons {s : Splice} {ss : List Splice} {e e' : Nat} :
      s.inserted = Insertion.bytesAt insertions s.old.offset →
      s.captures = Insertion.capturesAt insertions s.old.offset →
      Chain insertions s.old.next s.stop ss e e' →
      Chain insertions s.old.offset s.start (s :: ss) e e'

/-- Where spliced code of old length `e` and new length `e'` has its targets and instructions. The end stays the
end. -/
def relocation (ss : List Splice) (e e' : Nat) : Relocation where
  target t t' := (t = e ∧ t' = e') ∨ ∃ s ∈ ss, s.old.offset = t ∧ s.target = t'
  instruction o o' := ∃ s ∈ ss, s.old.offset = o ∧ s.position = o'

theorem start_le_target (s : Splice) : s.start ≤ s.target := by
  unfold target position
  split_ifs <;> omega

theorem target_le_position (s : Splice) : s.target ≤ s.position := by
  unfold target position
  split_ifs <;> omega

theorem position_lt_stop (s : Splice) : s.position < s.stop := by
  have := Instruction.size_pos s.position s.old.instruction
  unfold stop
  omega

namespace Chain

variable {insertions : List Insertion} {o n e e' : Nat} {ss : List Splice}

theorem le (h : Chain insertions o n ss e e') : o ≤ e ∧ n ≤ e' := by
  induction h with
  | nil => exact ⟨Nat.le_refl _, Nat.le_refl _⟩
  | @cons s _ _ _ _ _ _ ih =>
    have hpos := Instruction.size_pos s.old.offset s.old.instruction
    have hlt := s.position_lt_stop
    have hle : s.start ≤ s.position := Nat.le_add_right _ _
    unfold Placed.next at ih
    omega

/-- A splice lies between the ends of its chain. -/
theorem bounds (h : Chain insertions o n ss e e') {s : Splice} (hs : s ∈ ss) :
    o ≤ s.old.offset ∧ s.old.next ≤ e ∧ n ≤ s.start ∧ s.stop ≤ e' := by
  induction h with
  | nil => cases hs
  | @cons t _ _ _ _ _ h ih =>
    rcases List.mem_cons.1 hs with rfl | hs
    · exact ⟨Nat.le_refl _, h.le.1, Nat.le_refl _, h.le.2⟩
    · obtain ⟨h1, h2, h3, h4⟩ := ih hs
      have hpos := Instruction.size_pos t.old.offset t.old.instruction
      have hlt := t.position_lt_stop
      have hle : t.start ≤ t.position := Nat.le_add_right _ _
      unfold Placed.next at h1
      exact ⟨by omega, h2, by omega, h4⟩

theorem offset_lt (h : Chain insertions o n ss e e') {s : Splice} (hs : s ∈ ss) : s.old.offset < e := by
  have hnext := (h.bounds hs).2.1
  have hpos := Instruction.size_pos s.old.offset s.old.instruction
  unfold Placed.next at hnext
  omega

/-- Splices come in the order of their old offsets, and do not overlap. -/
theorem pairwise (h : Chain insertions o n ss e e') :
    ss.Pairwise fun s t => s.old.next ≤ t.old.offset ∧ s.stop ≤ t.start := by
  induction h with
  | nil => exact .nil
  | cons _ _ h ih => exact .cons (fun t ht => ⟨(h.bounds ht).1, (h.bounds ht).2.2.1⟩) ih

theorem eq_or_apart (h : Chain insertions o n ss e e') {s t : Splice} (hs : s ∈ ss) (ht : t ∈ ss) :
    s = t ∨ (s.old.next ≤ t.old.offset ∧ s.stop ≤ t.start) ∨ (t.old.next ≤ s.old.offset ∧ t.stop ≤ s.start) := by
  by_cases hst : s = t
  · exact Or.inl hst
  · have hsymm : Std.Symm fun s t : Splice =>
        (s.old.next ≤ t.old.offset ∧ s.stop ≤ t.start) ∨ (t.old.next ≤ s.old.offset ∧ t.stop ≤ s.start) :=
      ⟨fun _ _ => Or.symm⟩
    have hpair : ss.Pairwise fun s t : Splice =>
        (s.old.next ≤ t.old.offset ∧ s.stop ≤ t.start) ∨ (t.old.next ≤ s.old.offset ∧ t.stop ≤ s.start) :=
      h.pairwise.imp Or.inl
    exact Or.inr (hpair.forall hs ht hst)

theorem eq_of_offset (h : Chain insertions o n ss e e') {s t : Splice} (hs : s ∈ ss) (ht : t ∈ ss)
    (hst : s.old.offset = t.old.offset) : s = t := by
  have hs1 := Instruction.size_pos s.old.offset s.old.instruction
  have ht1 := Instruction.size_pos t.old.offset t.old.instruction
  rcases h.eq_or_apart hs ht with rfl | ⟨hlt, -⟩ | ⟨hlt, -⟩
  · rfl
  · unfold Placed.next at hlt
    omega
  · unfold Placed.next at hlt
    omega

theorem stop_le_start (h : Chain insertions o n ss e e') {s t : Splice} (hs : s ∈ ss) (ht : t ∈ ss)
    (hst : s.old.offset < t.old.offset) : s.stop ≤ t.start := by
  rcases h.eq_or_apart hs ht with rfl | ⟨-, hle⟩ | ⟨hlt, -⟩
  · exact absurd hst (Nat.lt_irrefl _)
  · exact hle
  · have := Instruction.size_pos t.old.offset t.old.instruction
    unfold Placed.next at hlt
    omega

/-- Behind a splice stands the next one, or the end. -/
theorem following (h : Chain insertions o n ss e e') {s : Splice} (hs : s ∈ ss) :
    (s.old.next = e ∧ s.stop = e') ∨ ∃ t ∈ ss, t.old.offset = s.old.next ∧ t.start = s.stop := by
  induction h with
  | nil => cases hs
  | @cons r _ _ _ _ _ h ih =>
    rcases List.mem_cons.1 hs with rfl | hs
    · generalize ho : s.old.next = o at h
      generalize hn : s.stop = n at h
      cases h with
      | nil => exact Or.inl ⟨rfl, rfl⟩
      | @cons t => exact Or.inr ⟨t, by simp, rfl, rfl⟩
    · rcases ih hs with hend | ⟨t, ht, hoff, hstart⟩
      · exact Or.inl hend
      · exact Or.inr ⟨t, List.mem_cons_of_mem _ ht, hoff, hstart⟩

/-- A chain starts with a splice, or is empty. -/
theorem first (h : Chain insertions o n ss e e') :
    (ss = [] ∧ o = e ∧ n = e') ∨ ∃ s ∈ ss, s.old.offset = o ∧ s.start = n := by
  cases h with
  | nil => exact Or.inl ⟨rfl, rfl, rfl⟩
  | @cons s => exact Or.inr ⟨s, by simp, rfl, rfl⟩

theorem inserted_eq (h : Chain insertions o n ss e e') {s : Splice} (hs : s ∈ ss) :
    s.inserted = Insertion.bytesAt insertions s.old.offset ∧
      s.captures = Insertion.capturesAt insertions s.old.offset := by
  induction h with
  | nil => cases hs
  | cons hi hc _ ih =>
    rcases List.mem_cons.1 hs with rfl | hs
    · exact ⟨hi, hc⟩
    · exact ih hs

/-! ## Where targets go -/

theorem target_strictMono (h : Chain insertions o n ss e e') {t t' u u' : Nat}
    (ht : (relocation ss e e').target t t') (hu : (relocation ss e e').target u u') (htu : t < u) : t' < u' := by
  rcases ht with ⟨rfl, rfl⟩ | ⟨s, hs, rfl, rfl⟩
  · rcases hu with ⟨rfl, rfl⟩ | ⟨r, hr, rfl, rfl⟩
    · exact absurd htu (Nat.lt_irrefl _)
    · have := (h.bounds hr).2.1
      unfold Placed.next at this
      omega
  · have hpos := s.position_lt_stop
    have hle := s.target_le_position
    rcases hu with ⟨rfl, rfl⟩ | ⟨r, hr, rfl, rfl⟩
    · have := (h.bounds hs).2.2.2
      omega
    · have := h.stop_le_start hs hr htu
      have := r.start_le_target
      omega

theorem target_unique (h : Chain insertions o n ss e e') {t t' u' : Nat} (ht : (relocation ss e e').target t t')
    (hu : (relocation ss e e').target t u') : t' = u' := by
  rcases ht with ⟨rfl, rfl⟩ | ⟨s, hs, rfl, rfl⟩
  · rcases hu with ⟨-, rfl⟩ | ⟨r, hr, hoff, rfl⟩
    · rfl
    · have := h.offset_lt hr
      omega
  · rcases hu with ⟨hoff, rfl⟩ | ⟨r, hr, hoff, rfl⟩
    · have := h.offset_lt hs
      omega
    · rw [h.eq_of_offset hs hr hoff.symm]

theorem target_le (h : Chain insertions o n ss e e') {t t' : Nat} (ht : (relocation ss e e').target t t') :
    t' ≤ e' := by
  rcases ht with ⟨-, rfl⟩ | ⟨s, hs, -, rfl⟩
  · exact Nat.le_refl _
  · have := (h.bounds hs).2.2.2
    have := s.target_le_position
    have := s.position_lt_stop
    omega

theorem position_lt (h : Chain insertions o n ss e e') {s : Splice} (hs : s ∈ ss) : s.position < e' := by
  have := (h.bounds hs).2.2.2
  have := s.position_lt_stop
  omega

/-- Targets stay apart and in order. -/
theorem fits (h : Chain insertions o n ss e e') (hle : e' < 0x10000) : (relocation ss e e').Fits where
  target_lt ht := by have := h.target_le ht; omega
  instruction_lt := by
    rintro _ _ ⟨s, hs, -, rfl⟩
    have := h.position_lt hs
    omega
  target_strictMono := h.target_strictMono
  target_unique := h.target_unique

end Chain

/-! ## The layout -/

/-- The slot of a splice. -/
def slot (s : Splice) : Slot := ⟨s.old.offset, s.start, s.position, s.captures⟩

theorem Chain.slotsOnto {insertions : List Insertion} {o n e e' : Nat} {ss : List Splice}
    (h : Chain insertions o n ss e e') (found : List Slot) :
    Layout.slotsOnto (Insertion.groups insertions) n found (ss.map (·.old)) = (found.reverse ++ ss.map slot, e') := by
  induction h generalizing found with
  | nil => simp [Layout.slotsOnto]
  | @cons s ss _ _ hi hc _ ih =>
    have hposition : s.start + Insertion.groupLength (Insertion.group insertions s.old.offset) = s.position := by
      rw [position, hi, Insertion.bytesAt, Insertion.length_groupBytes]
    rw [List.map_cons, Layout.slotsOnto, Insertion.getD_groups]
    simp only [hposition]
    have hstop : s.position + s.old.instruction.size s.position = s.stop := rfl
    have hcaptures : (Insertion.group insertions s.old.offset).any (·.capturesTargets) = s.captures := hc.symm
    rw [hstop, hcaptures, ih]
    simp [slot]

theorem Chain.layout {insertions : List Insertion} {e e' : Nat} {ss : List Splice}
    (h : Chain insertions 0 0 ss e e') :
    Layout.of (Insertion.groups insertions) e (ss.map (·.old)) =
      ⟨ss.map slot, Std.TreeMap.ofList ((ss.map slot).map fun s => (s.old, s)), e, e'⟩ := by
  rw [Layout.of, h.slotsOnto]
  rfl

theorem Chain.slot_eq_ok_iff {insertions : List Insertion} {e e' : Nat} {ss : List Splice}
    (h : Chain insertions 0 0 ss e e') {o : Nat} {r : Slot} :
    (Layout.of (Insertion.groups insertions) e (ss.map (·.old))).slot o = .ok r ↔
      ∃ s ∈ ss, s.old.offset = o ∧ s.slot = r := by
  have hkeys : ((ss.map slot).map fun s => (s.old, s)) = ss.map fun s => (s.old.offset, s.slot) := by
    rw [List.map_map]
    rfl
  have hapart : (ss.map fun s => (s.old.offset, s.slot)).Pairwise fun a b => ¬compare a.1 b.1 = .eq := by
    refine List.pairwise_map.2 (h.pairwise.imp fun {s t} hst => ?_)
    have hpos := Instruction.size_pos s.old.offset s.old.instruction
    rw [Std.LawfulEqCmp.compare_eq_iff_eq]
    unfold Placed.next at hst
    omega
  rw [h.layout, Layout.slot, hkeys]
  by_cases ho : ∃ s ∈ ss, s.old.offset = o
  · obtain ⟨s, hs, rfl⟩ := ho
    have hmem : (s.old.offset, s.slot) ∈ ss.map fun s => (s.old.offset, s.slot) := List.mem_map_of_mem hs
    rw [Std.TreeMap.getElem?_ofList_of_mem Std.ReflCmp.compare_self hapart hmem]
    simp only [Except.ok.injEq]
    constructor
    · intro hr
      exact ⟨s, hs, rfl, hr⟩
    · rintro ⟨t, ht, hoff, rfl⟩
      rw [h.eq_of_offset hs ht hoff.symm]
  · have hnone : ((ss.map fun s => (s.old.offset, s.slot)).map Prod.fst).contains o = false := by
      rw [List.map_map, Bool.eq_false_iff, ne_eq, List.contains_iff_mem]
      intro hmem
      obtain ⟨s, hs, hoff⟩ := List.mem_map.1 hmem
      exact ho ⟨s, hs, hoff⟩
    rw [Std.TreeMap.getElem?_ofList_of_contains_eq_false hnone]
    constructor
    · intro hr
      cases hr
    · rintro ⟨s, hs, hoff, -⟩
      exact absurd ⟨s, hs, hoff⟩ ho

/-- The layout relocates like the splices. -/
theorem Chain.relocation_layout {insertions : List Insertion} {e e' : Nat} {ss : List Splice}
    (h : Chain insertions 0 0 ss e e') :
    (Layout.of (Insertion.groups insertions) e (ss.map (·.old))).relocation = relocation ss e e' := by
  have htarget : ∀ o n, (Layout.of (Insertion.groups insertions) e (ss.map (·.old))).target o = .ok n ↔
      (relocation ss e e').target o n := by
    intro o n
    have holdLength : (Layout.of (Insertion.groups insertions) e (ss.map (·.old))).oldLength = e := by rw [h.layout]
    have hnewLength : (Layout.of (Insertion.groups insertions) e (ss.map (·.old))).newLength = e' := by rw [h.layout]
    rw [Layout.target, holdLength, hnewLength, relocation]
    split_ifs with ho
    · rw [Except.ok.injEq]
      constructor
      · rintro rfl
        exact Or.inl ⟨ho, rfl⟩
      · rintro (⟨-, rfl⟩ | ⟨s, hs, hoff, -⟩)
        · rfl
        · have := h.offset_lt hs
          omega
    · constructor
      · intro hn
        split at hn
        · next r hr =>
          obtain ⟨s, hs, hoff, rfl⟩ := h.slot_eq_ok_iff.1 hr
          cases hn
          exact Or.inr ⟨s, hs, hoff, rfl⟩
        · cases hn
      · rintro (⟨hoff, -⟩ | ⟨s, hs, hoff, rfl⟩)
        · exact absurd hoff ho
        · rw [h.slot_eq_ok_iff.2 ⟨s, hs, hoff, rfl⟩]
          rfl
  have hinstruction : ∀ o n, (Layout.of (Insertion.groups insertions) e (ss.map (·.old))).instruction o = .ok n ↔
      (relocation ss e e').instruction o n := by
    intro o n
    rw [Layout.instruction, relocation]
    constructor
    · intro hn
      split at hn
      · next r hr =>
        obtain ⟨s, hs, hoff, rfl⟩ := h.slot_eq_ok_iff.1 hr
        cases hn
        exact ⟨s, hs, hoff, rfl⟩
      · cases hn
    · rintro ⟨s, hs, hoff, rfl⟩
      rw [h.slot_eq_ok_iff.2 ⟨s, hs, hoff, rfl⟩]
      rfl
  exact Relocation.ext (funext₂ fun o n => propext (htarget o n)) (funext₂ fun o n => propext (hinstruction o n))

end Splice

end Registrar
