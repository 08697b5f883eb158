import Registrar.Proofs.Straight
import Registrar.Proofs.Stuttering

/-!
# Control flow through inserted code

* `Step` : where control can go from an offset, as far as the code and its exception table say;
* `Splice.origin` : the old offset that an offset of the new code stands for, if there is one;
* `Inlining` : straight code is put in, which captures what pointed at an instruction other than the first;
* `Inlining.forward`, `Inlining.backward` : the runs of the new code are those of the old one, up to stuttering;
* `Inlining.passes` : an instruction is only reached by way of all that is inserted in front of it.
-/

namespace Registrar

/-- Control can go from one offset to another: to the next instruction, along a branch or a case of a switch, from the
end of a subroutine to where it was called, or from a guarded instruction to the handler. -/
inductive Step (code : List Placed) (handlers : List Handler) : Nat → Nat → Prop
  | fall {p : Placed} : p ∈ code → p.instruction.fallsThrough = true → Step code handlers p.offset p.next
  | jump {p : Placed} {d : Int} {t : Nat} : p ∈ code → d ∈ p.instruction.distances → (p.offset : Int) + d = t →
      Step code handlers p.offset t
  | ret {p q : Placed} : p ∈ code → p.instruction.isRet = true → q ∈ code → q.instruction.isJsr = true →
      Step code handlers p.offset q.next
  | raise {p : Placed} {h : Handler} : p ∈ code → h ∈ handlers → h.start.toNat ≤ p.offset → p.offset < h.stop.toNat →
      Step code handlers p.offset h.target.toNat

/-- Control goes on, or an exception takes it to a handler. -/
theorem step_iff {code : List Placed} {handlers : List Handler} {u u' : Nat} :
    Step code handlers u u' ↔ Step code [] u u' ∨ ∃ p ∈ code, ∃ h ∈ handlers, p.offset = u ∧ h.target.toNat = u' ∧
      h.start.toNat ≤ p.offset ∧ p.offset < h.stop.toNat := by
  constructor
  · intro hstep
    cases hstep with
    | fall hp hfalls => exact Or.inl (.fall hp hfalls)
    | jump hp hd ht => exact Or.inl (.jump hp hd ht)
    | ret hp hret hq hjsr => exact Or.inl (.ret hp hret hq hjsr)
    | raise hp hh hstart hstop => exact Or.inr ⟨_, hp, _, hh, rfl, rfl, hstart, hstop⟩
  · rintro (hstep | ⟨p, hp, h, hh, rfl, rfl, hstart, hstop⟩)
    · cases hstep with
      | fall hp hfalls => exact .fall hp hfalls
      | jump hp hd ht => exact .jump hp hd ht
      | ret hp hret hq hjsr => exact .ret hp hret hq hjsr
      | raise _ hh => cases hh
    · exact .raise hp hh hstart hstop

namespace Instruction

variable {T : Nat → Nat → Prop} {old new : Nat} {i i' : Instruction}

theorem Moved.fallsThrough (h : Moved T old new i i') : i'.fallsThrough = i.fallsThrough := by
  cases h <;> rfl

theorem Moved.isRet (h : Moved T old new i i') : i'.isRet = i.isRet := by
  cases h <;> rfl

theorem Moved.isJsr (h : Moved T old new i i') : i'.isJsr = i.isJsr := by
  cases h <;> rfl

theorem Moved.distances (h : Moved T old new i i') :
    List.Forall₂ (LeadsAlong T old new) i.distances i'.distances := by
  cases h with
  | plain => exact .nil
  | branch hd => exact .cons hd .nil
  | wideBranch hd => exact .cons hd .nil
  | tableSwitch hf hds =>
    refine .cons hf ?_
    rwa [List.forall₂_map_left_iff, List.forall₂_map_right_iff]
  | lookupSwitch hf hcases =>
    refine .cons hf ?_
    rw [List.forall₂_map_left_iff, List.forall₂_map_right_iff]
    exact hcases.imp fun _ _ h => h.2

end Instruction

namespace Splice

/-- The old offset that an offset of spliced code stands for: that of the instruction itself, also for the inserted code
in front of it that captures what pointed there. Other inserted code stands for nothing. -/
def origin (ss : List Splice) (e e' u : Nat) : Option Nat :=
  if u = e' then some e else (ss.find? fun s => decide (s.target ≤ u) && decide (u ≤ s.position)).map (·.old.offset)

/-- The instructions of spliced code, where `inner` gives the inserted ones. -/
def newCode (ss : List Splice) (inner : Splice → List Instruction) : List Placed :=
  ss.flatMap fun s => s.placed (inner s)

theorem exists_of_mem_newCode {ss : List Splice} {inner : Splice → List Instruction} {q : Placed}
    (hq : q ∈ newCode ss inner) : ∃ s ∈ ss, q ∈ Placed.layOut s.start (inner s) ∨ q = ⟨s.position, s.moved⟩ := by
  obtain ⟨s, hs, hq⟩ := List.mem_flatMap.1 hq
  exact ⟨s, hs, by simpa [placed] using hq⟩

theorem mem_newCode_layOut {ss : List Splice} {inner : Splice → List Instruction} {s : Splice} (hs : s ∈ ss)
    {q : Placed} (hq : q ∈ Placed.layOut s.start (inner s)) : q ∈ newCode ss inner :=
  List.mem_flatMap.2 ⟨s, hs, List.mem_append_left _ hq⟩

theorem mem_newCode_moved {ss : List Splice} {inner : Splice → List Instruction} {s : Splice} (hs : s ∈ ss) :
    (⟨s.position, s.moved⟩ : Placed) ∈ newCode ss inner :=
  List.mem_flatMap.2 ⟨s, hs, List.mem_append_right _ List.mem_cons_self⟩

namespace Chain

variable {insertions : List Insertion} {o n e e' : Nat} {ss : List Splice}

/-- The splices cover the new code without overlap. -/
theorem eq_of_between (h : Chain insertions o n ss e e') {s t : Splice} (hs : s ∈ ss) (ht : t ∈ ss) {u : Nat}
    (hsu : s.start ≤ u) (hus : u < s.stop) (htu : t.start ≤ u) (hut : u < t.stop) : s = t := by
  rcases h.eq_or_apart hs ht with heq | ⟨-, hle⟩ | ⟨-, hle⟩
  · exact heq
  · omega
  · omega

theorem target_mono (h : Chain insertions o n ss e e') {t t' u u' : Nat} (ht : (relocation ss e e').target t t')
    (hu : (relocation ss e e').target u u') (htu : t ≤ u) : t' ≤ u' := by
  rcases htu.lt_or_eq with hlt | rfl
  · exact (h.target_strictMono ht hu hlt).le
  · exact (h.target_unique ht hu).le

/-- A moved offset lies below an offset within a splice just when it lay below the instruction. -/
theorem target_le_iff (h : Chain insertions o n ss e e') {s : Splice} (hs : s ∈ ss) {u t t' : Nat}
    (ht : (relocation ss e e').target t t') (hsu : s.target ≤ u) (hus : u < s.stop) :
    t' ≤ u ↔ t ≤ s.old.offset := by
  have hself : (relocation ss e e').target s.old.offset s.target := Or.inr ⟨s, hs, rfl, rfl⟩
  constructor
  · intro hle
    by_contra hlt
    rcases ht with ⟨-, rfl⟩ | ⟨r, hr, rfl, rfl⟩
    · have := (h.bounds hs).2.2.2
      omega
    · have := h.stop_le_start hs hr (by omega)
      have := r.start_le_target
      omega
  · exact fun hle => (h.target_mono ht hself hle).trans hsu

theorem origin_eq_some (h : Chain insertions o n ss e e') {s : Splice} (hs : s ∈ ss) {u : Nat} (hsu : s.target ≤ u)
    (hus : u ≤ s.position) : origin ss e e' u = some s.old.offset := by
  have hlt := s.position_lt_stop
  have hend := (h.bounds hs).2.2.2
  rw [origin, if_neg (by omega)]
  cases hfind : ss.find? fun s => decide (s.target ≤ u) && decide (u ≤ s.position) with
  | none =>
    have := List.find?_eq_none.1 hfind s hs
    simp [hsu, hus] at this
  | some t =>
    have ht := List.find?_some hfind
    rw [Bool.and_eq_true, decide_eq_true_iff, decide_eq_true_iff] at ht
    have hstart := s.start_le_target
    have hstart' := t.start_le_target
    have hlt' := t.position_lt_stop
    rw [h.eq_of_between hs (List.mem_of_find?_eq_some hfind) (u := u) (by omega) (by omega) (by omega) (by omega)]
    rfl

theorem origin_eq_none (h : Chain insertions o n ss e e') {s : Splice} (hs : s ∈ ss) {u : Nat} (hsu : s.start ≤ u)
    (hus : u < s.target) : origin ss e e' u = none := by
  have hle := s.target_le_position
  have hlt := s.position_lt_stop
  have hend := (h.bounds hs).2.2.2
  rw [origin, if_neg (by omega), List.find?_eq_none.2]
  · rfl
  · intro t ht hu
    rw [Bool.and_eq_true, decide_eq_true_iff, decide_eq_true_iff] at hu
    have hstart' := t.start_le_target
    have hlt' := t.position_lt_stop
    have heq := h.eq_of_between hs ht (u := u) (by omega) (by omega) (by omega) (by omega)
    subst heq
    omega

end Chain

end Splice

/-! ## Steps of the new code -/

/-- Straight code is put in front of instructions, `inner` says which. It captures what pointed at the instruction, unless
this is the first one. -/
structure Inlining (insertions : List Insertion) (e e' : Nat) (ss : List Splice) (inner : Splice → List Instruction)
    (handlers handlers' : List Handler) : Prop where
  chain : Splice.Chain insertions 0 0 ss e e'
  moved : ∀ s ∈ ss, Instruction.Moved (Splice.relocation ss e e').target s.old.offset s.position s.old.instruction
    s.moved
  inserted : ∀ s ∈ ss, s.inserted = Instruction.straightBytes (inner s)
  straight : ∀ s ∈ ss, ∀ i ∈ inner s, i.IsStraight
  captured : ∀ s ∈ ss, s.old.offset ≠ 0 → s.target = s.start
  handlers : List.Forall₂ (Handler.Moved (Splice.relocation ss e e')) handlers handlers'

namespace Inlining

variable {insertions : List Insertion} {e e' : Nat} {ss : List Splice} {inner : Splice → List Instruction}
  {handlers handlers' : List Handler} (h : Inlining insertions e e' ss inner handlers handlers')
include h

theorem layOut_bounds {s : Splice} (hs : s ∈ ss) {q : Placed} (hq : q ∈ Placed.layOut s.start (inner s)) :
    s.start ≤ q.offset ∧ q.offset < q.next ∧ q.next ≤ s.position ∧ q.instruction.IsStraight := by
  obtain ⟨hstart, hnext, hstraight⟩ := Placed.layOut_bounds (h.straight s hs) hq
  rw [← h.inserted s hs] at hnext
  exact ⟨hstart, Nat.lt_add_of_pos_right (Instruction.size_pos _ _), hnext, hstraight⟩

theorem layOut_following {s : Splice} (hs : s ∈ ss) {q : Placed} (hq : q ∈ Placed.layOut s.start (inner s)) :
    q.next = s.position ∨ ∃ r ∈ Placed.layOut s.start (inner s), r.offset = q.next := by
  have hnext := Placed.layOut_following (h.straight s hs) hq
  rwa [← h.inserted s hs] at hnext

/-- What stands in front of an instruction starts with an instruction, if there is any. -/
theorem layOut_first {s : Splice} (hs : s ∈ ss) :
    s.start = s.position ∨ ∃ q ∈ Placed.layOut s.start (inner s), q.offset = s.start := by
  have hinserted := h.inserted s hs
  cases hinner : inner s with
  | nil =>
    rw [hinner] at hinserted
    exact Or.inl (by rw [Splice.position, hinserted]; rfl)
  | cons i is => exact Or.inr ⟨⟨s.start, i⟩, by simp [Placed.layOut], rfl⟩

theorem moved_next {s : Splice} (hs : s ∈ ss) : (⟨s.position, s.moved⟩ : Placed).next = s.stop :=
  congrArg (s.position + ·) ((h.moved s hs).size s.position)

/-- Behind an instruction stands what points at the next one. -/
theorem target_next {s : Splice} (hs : s ∈ ss) : (Splice.relocation ss e e').target s.old.next s.stop := by
  rcases h.chain.following hs with hend | ⟨t, ht, hoff, hstart⟩
  · exact Or.inl hend
  · have hpos : s.old.offset < s.old.next := Nat.lt_add_of_pos_right (Instruction.size_pos _ _)
    refine Or.inr ⟨t, ht, hoff, ?_⟩
    rw [h.captured t ht (by omega), hstart]

/-- A handler guards an offset in front of or at an instruction just when it guarded the instruction. -/
theorem guarded_iff {s : Splice} (hs : s ∈ ss) {u : Nat} (hsu : s.target ≤ u) (hus : u ≤ s.position)
    {g g' : Handler} (hg : g.Moved (Splice.relocation ss e e') g') :
    (g'.start.toNat ≤ u ∧ u < g'.stop.toNat) ↔
      (g.start.toNat ≤ s.old.offset ∧ s.old.offset < g.stop.toNat) := by
  have hlt := s.position_lt_stop
  rw [h.chain.target_le_iff hs hg.start hsu (by omega), ← not_le, h.chain.target_le_iff hs hg.stop hsu (by omega),
    not_le]

/-- Where control can go without an exception: from a moved instruction along a step of the old code, and in inserted
code to the instruction behind. -/
theorem advance_cases {u u' : Nat} (hstep : Step (Splice.newCode ss inner) [] u u') :
    ∃ s ∈ ss,
      (u = s.position ∧
        ∃ o', Step (ss.map (·.old)) [] s.old.offset o' ∧ (Splice.relocation ss e e').target o' u') ∨
      ∃ q ∈ Placed.layOut s.start (inner s), q.offset = u ∧ q.next = u' := by
  have hold {s : Splice} (hs : s ∈ ss) : s.old ∈ ss.map (·.old) := List.mem_map_of_mem hs
  cases hstep with
  | @fall q hq hfalls =>
    obtain ⟨s, hs, hq | rfl⟩ := Splice.exists_of_mem_newCode hq
    · exact ⟨s, hs, Or.inr ⟨q, hq, rfl, rfl⟩⟩
    · refine ⟨s, hs, Or.inl ⟨rfl, s.old.next, .fall (hold hs) ?_, ?_⟩⟩
      · exact (h.moved s hs).fallsThrough ▸ hfalls
      · rw [h.moved_next hs]
        exact h.target_next hs
  | @jump q d' _ hq hd' ht =>
    obtain ⟨s, hs, hq | rfl⟩ := Splice.exists_of_mem_newCode hq
    · rw [(h.layOut_bounds hs hq).2.2.2.distances] at hd'
      cases hd'
    · obtain ⟨d, hd, t, t', hdt, hdt', htarget⟩ := (h.moved s hs).distances.flip.exists_of_mem hd'
      have htt' : t' = u' := by
        have := hdt'.symm.trans ht
        exact_mod_cast this
      subst htt'
      exact ⟨s, hs, Or.inl ⟨rfl, t, .jump (hold hs) hd hdt, htarget⟩⟩
  | @ret q r hq hret hr hjsr =>
    obtain ⟨s, hs, hq | rfl⟩ := Splice.exists_of_mem_newCode hq
    · rw [(h.layOut_bounds hs hq).2.2.2.isRet] at hret
      cases hret
    · obtain ⟨t, ht, hr | rfl⟩ := Splice.exists_of_mem_newCode hr
      · rw [(h.layOut_bounds ht hr).2.2.2.isJsr] at hjsr
        cases hjsr
      · refine ⟨s, hs, Or.inl ⟨rfl, t.old.next, .ret (hold hs) ?_ (hold ht) ?_, ?_⟩⟩
        · exact (h.moved s hs).isRet ▸ hret
        · exact (h.moved t ht).isJsr ▸ hjsr
        · rw [h.moved_next ht]
          exact h.target_next ht
  | raise _ hg => cases hg

/-- What is guarded stands for an instruction that was guarded. -/
theorem raise_cases {q : Placed} {g' : Handler} (hq : q ∈ Splice.newCode ss inner) (hg' : g' ∈ handlers')
    (hstart : g'.start.toNat ≤ q.offset) (hstop : q.offset < g'.stop.toNat) :
    ∃ s ∈ ss, (s.target ≤ q.offset ∧
      (q.offset = s.position ∨ ∃ r ∈ Placed.layOut s.start (inner s), r.offset = q.offset)) ∧
      ∃ g ∈ handlers, g.start.toNat ≤ s.old.offset ∧ s.old.offset < g.stop.toNat ∧
        (Splice.relocation ss e e').target g.target.toNat g'.target.toNat := by
  obtain ⟨g, hg, hmoved⟩ := h.handlers.flip.exists_of_mem hg'
  obtain ⟨s, hs, hq | rfl⟩ := Splice.exists_of_mem_newCode hq
  · obtain ⟨hlow, hlt, hhigh, -⟩ := h.layOut_bounds hs hq
    -- Code in front of the first instruction that captures nothing is guarded by no handler.
    have htarget : s.target ≤ q.offset := by
      by_contra hbelow
      have hzero : s.old.offset = 0 := by
        by_contra hne
        have := h.captured s hs hne
        omega
      have hle : s.target ≤ g'.start.toNat :=
        (h.chain.target_mono (Or.inr ⟨s, hs, rfl, rfl⟩) hmoved.start (by omega))
      omega
    obtain ⟨hgstart, hgstop⟩ := (h.guarded_iff hs htarget (by omega) hmoved).1 ⟨hstart, hstop⟩
    exact ⟨s, hs, ⟨htarget, Or.inr ⟨q, hq, rfl⟩⟩, g, hg, hgstart, hgstop, hmoved.target⟩
  · obtain ⟨hgstart, hgstop⟩ :=
      (h.guarded_iff hs s.target_le_position (Nat.le_refl _) hmoved).1 ⟨hstart, hstop⟩
    exact ⟨s, hs, ⟨s.target_le_position, Or.inl rfl⟩, g, hg, hgstart, hgstop, hmoved.target⟩

/-- Where control can go in the new code: from a moved instruction along a step of the old code, in inserted code to the
instruction behind, and from inserted code that captures what pointed at an instruction to where this may throw. -/
theorem step_cases {u u' : Nat} (hstep : Step (Splice.newCode ss inner) handlers' u u') :
    ∃ s ∈ ss,
      (s.target ≤ u ∧ (u = s.position ∨ ∃ q ∈ Placed.layOut s.start (inner s), q.offset = u) ∧
        ∃ o', Step (ss.map (·.old)) handlers s.old.offset o' ∧ (Splice.relocation ss e e').target o' u') ∨
      ∃ q ∈ Placed.layOut s.start (inner s), q.offset = u ∧ q.next = u' := by
  rcases step_iff.1 hstep with hadvance | ⟨q, hq, g', hg', rfl, rfl, hstart, hstop⟩
  · obtain ⟨s, hs, ⟨rfl, o', hold, htarget⟩ | hinner⟩ := h.advance_cases hadvance
    · exact ⟨s, hs, Or.inl ⟨s.target_le_position, Or.inl rfl, o', step_iff.2 (Or.inl hold), htarget⟩⟩
    · exact ⟨s, hs, Or.inr hinner⟩
  · obtain ⟨s, hs, ⟨hlow, hu⟩, g, hg, hgstart, hgstop, htarget⟩ := h.raise_cases hq hg' hstart hstop
    exact ⟨s, hs, Or.inl ⟨hlow, hu, _, .raise (List.mem_map_of_mem hs) hg hgstart hgstop, htarget⟩⟩

/-- From an instruction control can go where the old steps lead. -/
theorem exists_step {s : Splice} (hs : s ∈ ss) {o' : Nat} (hstep : Step (ss.map (·.old)) handlers s.old.offset o') :
    ∃ u', (Splice.relocation ss e e').target o' u' ∧ Step (Splice.newCode ss inner) handlers' s.position u' := by
  have hself {p : Placed} (hp : p ∈ ss.map (·.old)) (hoff : p.offset = s.old.offset) : p = s.old := by
    obtain ⟨t, ht, rfl⟩ := List.mem_map.1 hp
    rw [h.chain.eq_of_offset ht hs hoff]
  generalize ho : s.old.offset = o at hstep
  cases hstep with
  | fall hp hfalls =>
    obtain rfl := hself hp ho.symm
    refine ⟨s.stop, h.target_next hs, ?_⟩
    rw [← h.moved_next hs]
    exact .fall (Splice.mem_newCode_moved hs) ((h.moved s hs).fallsThrough.trans hfalls)
  | @jump _ d _ hp hd ht =>
    obtain rfl := hself hp ho.symm
    obtain ⟨d', hd', t, t', hdt, hdt', htarget⟩ := (h.moved s hs).distances.exists_of_mem hd
    have htt' : t = o' := by
      have := hdt.symm.trans ht
      exact_mod_cast this
    subst htt'
    exact ⟨t', htarget, .jump (Splice.mem_newCode_moved hs) hd' hdt'⟩
  | ret hp hret hr hjsr =>
    obtain rfl := hself hp ho.symm
    obtain ⟨t, ht, rfl⟩ := List.mem_map.1 hr
    refine ⟨t.stop, h.target_next ht, ?_⟩
    rw [← h.moved_next ht]
    exact .ret (Splice.mem_newCode_moved hs) ((h.moved s hs).isRet.trans hret) (Splice.mem_newCode_moved ht)
      ((h.moved t ht).isJsr.trans hjsr)
  | raise hp hg hstart hstop =>
    obtain rfl := hself hp ho.symm
    obtain ⟨g', hg', hmoved⟩ := h.handlers.exists_of_mem hg
    obtain ⟨hstart', hstop'⟩ :=
      (h.guarded_iff hs s.target_le_position (Nat.le_refl _) hmoved).2 ⟨hstart, hstop⟩
    exact ⟨_, hmoved.target, .raise (Splice.mem_newCode_moved hs) hg' hstart' hstop'⟩

/-! ## Runs of the new code -/

end Inlining

/-- The offset is that of the instruction at `x`, or of an instruction inserted in front of it, or the end. -/
def Within (e e' : Nat) (ss : List Splice) (inner : Splice → List Instruction) (u x : Nat) : Prop :=
  (u = e' ∧ x = e) ∨
    ∃ s ∈ ss, s.old.offset = x ∧ (u = s.position ∨ ∃ q ∈ Placed.layOut s.start (inner s), q.offset = u)

/-- The offset is that of the instruction at `x` itself, or the end. -/
def Reached (e e' : Nat) (ss : List Splice) (u x : Nat) : Prop :=
  (u = e' ∧ x = e) ∨ ∃ s ∈ ss, s.old.offset = x ∧ u = s.position

namespace Inlining

variable {insertions : List Insertion} {e e' : Nat} {ss : List Splice} {inner : Splice → List Instruction}
  {handlers handlers' : List Handler} (h : Inlining insertions e e' ss inner handlers handlers')
include h

theorem origin_of_within {u x : Nat} (hu : Within e e' ss inner u x) : ∀ y ∈ Splice.origin ss e e' u, y = x := by
  rcases hu with ⟨rfl, rfl⟩ | ⟨s, hs, rfl, hu⟩
  · intro y hy
    rw [Splice.origin, if_pos rfl] at hy
    exact (Option.some.inj hy).symm
  · have hbounds : s.start ≤ u ∧ u ≤ s.position := by
      rcases hu with rfl | ⟨q, hq, rfl⟩
      · exact ⟨Nat.le_add_right _ _, Nat.le_refl _⟩
      · have := h.layOut_bounds hs hq
        omega
    intro y hy
    by_cases htarget : s.target ≤ u
    · rw [h.chain.origin_eq_some hs htarget hbounds.2] at hy
      exact (Option.some.inj hy).symm
    · rw [h.chain.origin_eq_none hs hbounds.1 (by omega)] at hy
      cases hy

theorem origin_of_reached {u x : Nat} (hu : Reached e e' ss u x) : Splice.origin ss e e' u = some x := by
  rcases hu with ⟨rfl, rfl⟩ | ⟨s, hs, rfl, rfl⟩
  · rw [Splice.origin, if_pos rfl]
  · exact h.chain.origin_eq_some hs s.target_le_position (Nat.le_refl _)

/-- What points at an instruction stands for it. -/
theorem within_of_target {x u : Nat} (hu : (Splice.relocation ss e e').target x u) :
    Within e e' ss inner u x ∧ Splice.origin ss e e' u = some x := by
  rcases hu with ⟨rfl, rfl⟩ | ⟨s, hs, rfl, rfl⟩
  · exact ⟨Or.inl ⟨rfl, rfl⟩, h.origin_of_reached (Or.inl ⟨rfl, rfl⟩)⟩
  · refine ⟨Or.inr ⟨s, hs, rfl, ?_⟩, h.chain.origin_eq_some hs (Nat.le_refl _) s.target_le_position⟩
    rw [Splice.target]
    split_ifs
    · rcases h.layOut_first hs with heq | hfirst
      · exact Or.inl heq
      · exact Or.inr hfirst
    · exact Or.inl rfl

theorem within_next {s : Splice} (hs : s ∈ ss) {q : Placed} (hq : q ∈ Placed.layOut s.start (inner s)) :
    Within e e' ss inner q.next s.old.offset := Or.inr ⟨s, hs, rfl, h.layOut_following hs hq⟩

/-- From an offset that stands for an instruction control goes where the old steps lead, or on to the instruction. -/
theorem staysBelow : StaysBelow (Step (Splice.newCode ss inner) handlers') (Step (ss.map (·.old)) handlers)
    (fun u x => Within e e' ss inner u x ∧ Splice.origin ss e e' u = some x) e' := by
  rintro u u' x ⟨-, horigin⟩ hstep
  obtain ⟨s, hs, ⟨htarget, hu, o', hold, htarget'⟩ | ⟨q, hq, rfl, rfl⟩⟩ := h.step_cases hstep
  · have hx : x = s.old.offset := h.origin_of_within (Or.inr ⟨s, hs, rfl, hu⟩) x horigin
    subst hx
    exact Or.inl ⟨o', hold, h.within_of_target htarget'⟩
  · have hx : x = s.old.offset := h.origin_of_within (Or.inr ⟨s, hs, rfl, Or.inr ⟨q, hq, rfl⟩⟩) x horigin
    subst hx
    obtain ⟨hlow, hlt, hhigh, -⟩ := h.layOut_bounds hs hq
    have htarget : s.target ≤ q.offset := by
      by_contra hbelow
      rw [h.chain.origin_eq_none hs hlow (by omega)] at horigin
      cases horigin
    have hend := h.chain.position_lt hs
    exact Or.inr ⟨⟨h.within_next hs hq, h.chain.origin_eq_some hs (by omega) hhigh⟩, hlt, by omega⟩

/-- Through what is inserted in front of an instruction control can go on to it, and from there along the old steps. -/
theorem goesAbove : GoesAbove (Step (Splice.newCode ss inner) handlers') (Step (ss.map (·.old)) handlers)
    (Within e e' ss inner) (Reached e e' ss) e' where
  up u x hu := by
    rcases hu with hend | ⟨s, hs, rfl, rfl | ⟨q, hq, rfl⟩⟩
    · exact Or.inl (Or.inl hend)
    · exact Or.inl (Or.inr ⟨s, hs, rfl, rfl⟩)
    · obtain ⟨-, hlt, hhigh, hstraight⟩ := h.layOut_bounds hs hq
      have hend := h.chain.position_lt hs
      exact Or.inr ⟨q.next, .fall (Splice.mem_newCode_layOut hs hq) hstraight.fallsThrough, h.within_next hs hq, hlt,
        by omega⟩
  next u x x' hu hstep := by
    rcases hu with ⟨rfl, rfl⟩ | ⟨s, hs, rfl, rfl⟩
    · have hlt : ∀ p ∈ ss.map (·.old), p.offset ≠ x := by
        intro p hp
        obtain ⟨s, hs, rfl⟩ := List.mem_map.1 hp
        exact (h.chain.offset_lt hs).ne
      cases hstep with
      | fall hp => exact absurd rfl (hlt _ hp)
      | jump hp => exact absurd rfl (hlt _ hp)
      | ret hp => exact absurd rfl (hlt _ hp)
      | raise hp => exact absurd rfl (hlt _ hp)
    · obtain ⟨u', htarget, hstep'⟩ := h.exists_step hs hstep
      exact ⟨u', hstep', (h.within_of_target htarget).1⟩

/-- A method starts with what is inserted in front of its first instruction. -/
theorem within_zero : Within e e' ss inner 0 0 := by
  rcases h.chain.first with ⟨-, rfl, rfl⟩ | ⟨s, hs, hoff, hstart⟩
  · exact Or.inl ⟨rfl, rfl⟩
  · have hfirst := h.layOut_first hs
    rw [hstart] at hfirst
    refine Or.inr ⟨s, hs, hoff, ?_⟩
    rwa [hstart]

/-- Each run of the old code is one of the new code, up to stuttering. -/
theorem backward {m : ℕ∞} {o : Nat → Nat} (hrun : IsRun (Step (ss.map (·.old)) handlers) m o) (hzero : o 0 = 0) :
    ∃ n u, u 0 = 0 ∧ IsRun (Step (Splice.newCode ss inner) handlers') n u ∧
      Mirrors (Splice.origin ss e e') n u m o := by
  have hstart : Within e e' ss inner 0 (o 0) := by
    rw [hzero]
    exact h.within_zero
  obtain ⟨n, u, pace, hu, hrun', hpaced⟩ := exists_run_above h.goesAbove hrun hstart
  exact ⟨n, u, hu, hrun', pace, hpaced.imp (fun _ _ => h.origin_of_within) fun _ _ => h.origin_of_reached⟩

/-- Until a run comes to an offset that stands for something, it is within what is inserted at the start. -/
theorem within_start {n : ℕ∞} {u : Nat → Nat} (hrun : IsRun (Step (Splice.newCode ss inner) handlers') n u)
    (hzero : u 0 = 0) {k : Nat} (hk : (k : ℕ∞) ≤ n) (hnone : ∀ i < k, Splice.origin ss e e' (u i) = none) :
    Within e e' ss inner (u k) 0 := by
  induction k with
  | zero =>
    rw [hzero]
    exact h.within_zero
  | succ k ih =>
    have hlt : (k : ℕ∞) < n := lt_of_lt_of_le (by exact_mod_cast Nat.lt_succ_self k) hk
    have hwithin := ih hlt.le fun i hi => hnone i (Nat.lt_succ_of_lt hi)
    have hdropped := hnone k (Nat.lt_succ_self k)
    obtain ⟨s, hs, ⟨htarget, hu, -⟩ | ⟨q, hq, hqu, hnext⟩⟩ := h.step_cases (hrun k hlt)
    · have hhigh : u k ≤ s.position := by
        rcases hu with hu | ⟨q, hq, hqu⟩
        · exact hu.le
        · have := h.layOut_bounds hs hq
          omega
      rw [h.chain.origin_eq_some hs htarget hhigh] at hdropped
      cases hdropped
    · obtain ⟨hlow, hqlt, hhigh, -⟩ := h.layOut_bounds hs hq
      rw [← hnext]
      have hzero' : s.old.offset = 0 := by
        by_contra hne
        rw [← hqu, h.chain.origin_eq_some hs (by rwa [h.captured s hs hne]) (by omega)] at hdropped
        cases hdropped
      rw [← hzero']
      exact h.within_next hs hq

/-- Each run of the new code is one of the old code, up to stuttering, if it does not end before the first instruction of
the old code. -/
theorem forward {n : ℕ∞} {u : Nat → Nat} (hrun : IsRun (Step (Splice.newCode ss inner) handlers') n u)
    (hzero : u 0 = 0) :
    (∀ k : Nat, (k : ℕ∞) ≤ n → Splice.origin ss e e' (u k) = none) ∨
      ∃ m o, o 0 = 0 ∧ IsRun (Step (ss.map (·.old)) handlers) m o ∧ Mirrors (Splice.origin ss e e') n u m o := by
  classical
  by_cases hall : ∀ k : Nat, (k : ℕ∞) ≤ n → Splice.origin ss e e' (u k) = none
  · exact Or.inl hall
  · right
    push Not at hall
    let first := Nat.find hall
    obtain ⟨hfirst, horigin⟩ : (first : ℕ∞) ≤ n ∧ Splice.origin ss e e' (u first) ≠ none := Nat.find_spec hall
    have hbefore : ∀ k < first, Splice.origin ss e e' (u k) = none := by
      intro k hk
      by_contra hne
      exact Nat.find_min hall hk ⟨le_trans (by exact_mod_cast hk.le) hfirst, hne⟩
    have hwithin := h.within_start hrun hzero hfirst hbefore
    obtain ⟨x, hx⟩ := Option.ne_none_iff_exists'.1 horigin
    obtain rfl := h.origin_of_within hwithin x hx
    -- From `first` on, the run is followed.
    have hrun' : IsRun (Step (Splice.newCode ss inner) handlers') (n - first) fun k => u (first + k) :=
      fun k hk => hrun (first + k) (by exact_mod_cast lt_tsub_iff_left.1 hk)
    obtain ⟨m, o, pace, ho, hold, hpaced⟩ := exists_run_below h.staysBelow hrun' ⟨hwithin, hx⟩
    have hmirrors : Mirrors (Splice.origin ss e e') (n - first) (fun k => u (first + k)) m o :=
      ⟨pace, hpaced.imp (fun _ _ hu => h.origin_of_within hu.1) fun _ _ hu => hu.2⟩
    exact ⟨m, o, ho, hold, hmirrors.of_shift hfirst hbefore⟩

/-- A run stays at offsets that belong to an instruction of the old code. -/
theorem exists_within {n : ℕ∞} {u : Nat → Nat} (hrun : IsRun (Step (Splice.newCode ss inner) handlers') n u)
    (hzero : u 0 = 0) {k : Nat} (hk : (k : ℕ∞) ≤ n) : ∃ x, Within e e' ss inner (u k) x := by
  cases k with
  | zero => exact ⟨0, by rw [hzero]; exact h.within_zero⟩
  | succ k =>
    have hlt : (k : ℕ∞) < n := lt_of_lt_of_le (by exact_mod_cast Nat.lt_succ_self k) hk
    obtain ⟨s, hs, ⟨-, -, x, -, htarget⟩ | ⟨q, hq, -, hnext⟩⟩ := h.step_cases (hrun k hlt)
    · exact ⟨x, (h.within_of_target htarget).1⟩
    · rw [← hnext]
      exact ⟨_, h.within_next hs hq⟩

/-- What stands for nothing was put in front of the first instruction. -/
theorem lt_of_origin_eq_none {n : ℕ∞} {u : Nat → Nat}
    (hrun : IsRun (Step (Splice.newCode ss inner) handlers') n u) (hzero : u 0 = 0) {k : Nat} (hk : (k : ℕ∞) ≤ n)
    (hnone : Splice.origin ss e e' (u k) = none) :
    ∃ s ∈ ss, s.old.offset = 0 ∧ s.captures = false ∧ u k < s.inserted.length := by
  obtain ⟨x, hend | ⟨s, hs, -, hu⟩⟩ := h.exists_within hrun hzero hk
  · rw [h.origin_of_reached (Or.inl hend)] at hnone
    cases hnone
  · have hhigh : u k ≤ s.position := by
      rcases hu with hu | ⟨q, hq, hqu⟩
      · exact hu.le
      · have := h.layOut_bounds hs hq
        omega
    have hlow : u k < s.target := by
      by_contra hle
      rw [h.chain.origin_eq_some hs (not_lt.1 hle) hhigh] at hnone
      cases hnone
    have hcaptures : s.captures = false := by
      by_contra hcaptures
      have hstart : s.start ≤ u k := by
        rcases hu with hu | ⟨q, hq, hqu⟩
        · rw [hu]
          exact Nat.le_add_right _ _
        · rw [← hqu]
          exact (h.layOut_bounds hs hq).1
      have htarget : s.target = s.start := by rw [Splice.target, if_pos (Bool.eq_true_of_not_eq_false hcaptures)]
      omega
    have htarget : s.target = s.position := by rw [Splice.target, hcaptures]; rfl
    have hoffset : s.old.offset = 0 := by
      by_contra hne
      have hstart := h.captured s hs hne
      rcases hu with hu | ⟨q, hq, hqu⟩
      · omega
      · have := (h.layOut_bounds hs hq).1
        omega
    rcases h.chain.first with ⟨hnil, -⟩ | ⟨t, ht, htoff, htstart⟩
    · rw [hnil] at hs
      cases hs
    · obtain rfl := h.chain.eq_of_offset ht hs (htoff.trans hoffset.symm)
      refine ⟨t, hs, hoffset, hcaptures, ?_⟩
      rwa [htarget, Splice.position, htstart, Nat.zero_add] at hlow

/-- Behind the first of the instructions that capture what pointed at another one, and to this one itself, there is no
way but through the instructions before. -/
theorem step_into {s : Splice} (hs : s ∈ ss) (hcaptures : s.target = s.start) {u u' : Nat}
    (hstep : Step (Splice.newCode ss inner) handlers' u u') (hlow : s.start < u') (hhigh : u' ≤ s.position) :
    ∃ q ∈ Placed.layOut s.start (inner s), q.offset = u ∧ q.next = u' := by
  have hstop := s.position_lt_stop
  obtain ⟨t, ht, ⟨-, -, x, -, htarget⟩ | ⟨q, hq, hqu, hnext⟩⟩ := h.step_cases hstep
  · rcases htarget with ⟨-, rfl⟩ | ⟨r, hr, -, rfl⟩
    · have := (h.chain.bounds hs).2.2.2
      omega
    · have hrlow := r.start_le_target
      have hrhigh := r.target_le_position
      have hrstop := r.position_lt_stop
      have heq := h.chain.eq_of_between hs hr (u := r.target) (by omega) (by omega) hrlow (by omega)
      subst heq
      omega
  · obtain ⟨hqlow, hqlt, hqhigh, -⟩ := h.layOut_bounds ht hq
    have htstop := t.position_lt_stop
    have heq := h.chain.eq_of_between hs ht (u := u') (by omega) (by omega) (by omega) (by omega)
    subst heq
    exact ⟨q, hq, hqu, hnext⟩

/-- A run that comes to an instruction has just come, step by step, through all that is inserted in front of it, if this
captures what pointed at the instruction. -/
theorem passes {n : ℕ∞} {u : Nat → Nat} (hrun : IsRun (Step (Splice.newCode ss inner) handlers') n u)
    (hzero : u 0 = 0) {s : Splice} (hs : s ∈ ss) (hcaptures : s.target = s.start) {k : Nat} (hk : (k : ℕ∞) ≤ n)
    {i : Nat} (hi : i ≤ (inner s).length)
    (hu : u k = s.start + (Instruction.straightBytes ((inner s).take i)).length) :
    ∃ j, j + i = k ∧
      ∀ l ≤ i, u (j + l) = s.start + (Instruction.straightBytes ((inner s).take l)).length := by
  have hstraight := h.straight s hs
  have hlength : s.position = s.start + (Instruction.straightBytes ((inner s).take (inner s).length)).length := by
    rw [List.take_length, ← h.inserted s hs, Splice.position]
  induction i generalizing k with
  | zero => exact ⟨k, rfl, fun l hl => by rwa [Nat.le_zero.1 hl]⟩
  | succ i ih =>
    have hpos : 0 < (Instruction.straightBytes ((inner s).take (i + 1))).length :=
      Nat.lt_of_le_of_lt (Nat.zero_le _) (Instruction.length_take_lt hstraight (Nat.lt_succ_self i) hi)
    have hhigh : u k ≤ s.position := by
      rcases hi.lt_or_eq with hlt | heq
      · have := Instruction.length_take_lt hstraight hlt (Nat.le_refl _)
        omega
      · rw [hu, heq, ← hlength]
    cases k with
    | zero => omega
    | succ k =>
      have hlt : (k : ℕ∞) < n := lt_of_lt_of_le (by exact_mod_cast Nat.lt_succ_self k) hk
      obtain ⟨q, hq, hqu, hnext⟩ := h.step_into hs hcaptures (hrun k hlt) (by omega) hhigh
      obtain ⟨l, hl, hoff, hnext'⟩ := Placed.exists_take_of_mem_layOut hstraight hq
      have hli : l = i := by
        rcases Nat.lt_trichotomy l i with hlt | heq | hgt
        · have := Instruction.length_take_lt hstraight (Nat.add_lt_add_right hlt 1) hi
          omega
        · exact heq
        · have := Instruction.length_take_lt hstraight (Nat.add_lt_add_right hgt 1) hl
          omega
      subst hli
      obtain ⟨j, hj, hall⟩ := ih hlt.le (by omega) (by rw [← hqu, hoff])
      refine ⟨j, by omega, fun m hm => ?_⟩
      rcases Nat.le_or_eq_of_le_succ hm with hle | rfl
      · exact hall m hle
      · rw [Nat.succ_eq_add_one, ← Nat.add_assoc, hj, hu]

end Inlining

end Registrar
