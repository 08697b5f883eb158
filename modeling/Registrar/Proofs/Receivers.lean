import Registrar.Proofs.OperandStack

/-!
# Receivers

* `Instruction.writtenSlots` : the slots of local variables that an instruction writes;
* `ReceiverAt` : whether the local variable 0 holds the receiver where control comes to. `holdsReceiver_iff` : it does
  on every way to an offset, just when no instruction that writes it can be executed before;
* `Inlining.receiverAt_iff` : inserted instructions that do not write it find there what the instruction behind them
  found;
* `ClassDraft.holdsReceiver_of_injectMethod` : when calls in front of the returns of an instance method are made on its
  receiver.
-/

namespace Registrar

/-! ## Writes -/

namespace Instruction

/-- The slots that a store writes. Its kind is the place of its type among int, long, float, double and reference, and
longs and doubles take two slots. -/
def storedSlots (kind index : Nat) : List Nat := if kind = 1 ∨ kind = 3 then [index, index + 1] else [index]

/-- The slots written by an instruction with the index of a local variable as an operand. -/
def indexedSlots (opcode : UInt8) (index : Nat) : List Nat :=
  if 0x36 ≤ opcode ∧ opcode ≤ 0x3a then storedSlots (opcode.toNat - 0x36) index
  else if opcode = Opcode.iinc then [index]
  else []

/-- The slots written by a widened instruction, from its opcode on. -/
def widenedSlots : List UInt8 → List Nat
  | opcode :: a :: b :: _ => indexedSlots opcode (a.toNat * 256 + b.toNat)
  | _ => []

/-- The slots of local variables that the instruction writes. The shortest stores have the index in the opcode, four
opcodes for each kind. -/
def writtenSlots : Instruction → List Nat
  | .plain opcode operands =>
    if 0x3b ≤ opcode ∧ opcode ≤ 0x4e then storedSlots ((opcode.toNat - 0x3b) / 4) ((opcode.toNat - 0x3b) % 4)
    else if opcode = Opcode.wide then widenedSlots operands
    else
      match operands with
      | index :: _ => indexedSlots opcode index.toNat
      | [] => []
  | _ => []

/-- Whether the instruction writes the local variable that holds the receiver when an instance method starts. -/
def replacesReceiver (i : Instruction) : Bool := i.writtenSlots.contains 0

theorem stores_of_mem_indexedSlots {opcode : UInt8} {index slot : Nat} (h : slot ∈ indexedSlots opcode index) :
    writesLocal.stores opcode = true := by
  unfold indexedSlots at h
  split_ifs at h with hstore hiinc
  · have hle : opcode ≤ 0x4e := UInt8.le_trans hstore.2 (by decide)
    simp [writesLocal.stores, hstore.1, hle]
  · simp [writesLocal.stores, hiinc]
  · cases h

/-- What writes a slot writes a local variable. -/
theorem writesLocal_of_mem_writtenSlots {i : Instruction} {slot : Nat} (h : slot ∈ i.writtenSlots) :
    i.writesLocal = true := by
  cases i with
  | plain opcode operands =>
    simp only [writtenSlots] at h
    simp only [writesLocal, Bool.or_eq_true, Bool.and_eq_true, beq_iff_eq]
    split_ifs at h with hshort hwide
    · have hle : (0x36 : UInt8) ≤ opcode := UInt8.le_trans (by decide) hshort.1
      exact Or.inl (by simp [writesLocal.stores, hle, hshort.2])
    · rcases operands with _ | ⟨inner, _ | ⟨a, _ | ⟨b, rest⟩⟩⟩
      · cases h
      · cases h
      · cases h
      · exact Or.inr ⟨hwide, stores_of_mem_indexedSlots h⟩
    · cases operands with
      | nil => cases h
      | cons index rest => exact Or.inl (stores_of_mem_indexedSlots h)
  | _ => cases h

theorem replacesReceiver_eq_false {i : Instruction} (h : i.writesLocal = false) : i.replacesReceiver = false := by
  by_contra hreplaces
  have hmem : 0 ∈ i.writtenSlots := List.contains_iff_mem.1 (Bool.eq_true_of_not_eq_false hreplaces)
  rw [writesLocal_of_mem_writtenSlots hmem] at h
  cases h

/-- Stores of an int, a long, a float, a double and a reference have short forms, and `iinc` has a wide one. -/
example : (∀ opcode ∈ [0x3b, 0x3f, 0x43, 0x47, 0x4b], replacesReceiver (.plain opcode []) = true) ∧
    replacesReceiver (.plain Opcode.wide [Opcode.iinc, 0, 0, 0, 1]) = true ∧
    replacesReceiver (.plain Opcode.wide [Opcode.iinc, 1, 0, 0, 1]) = false := by decide +kernel

theorem Moved.replacesReceiver {T : Nat → Nat → Prop} {old new : Nat} {i i' : Instruction}
    (h : Moved T old new i i') : i'.replacesReceiver = i.replacesReceiver := by
  cases h <;> rfl

end Instruction

/-! ## The ways to an offset -/

/-- Control goes on, and the local variable 0 still holds the receiver if it did and the instruction does not write it.
An instruction that throws has written nothing. -/
inductive ReceiverStep (code : List Placed) (handlers : List Handler) : Nat × Bool → Nat × Bool → Prop
  | advance {p : Placed} {u : Nat} {held : Bool} : p ∈ code → Step code [] p.offset u →
      ReceiverStep code handlers (p.offset, held) (u, held && !p.instruction.replacesReceiver)
  | raise {p : Placed} {h : Handler} {held : Bool} : p ∈ code → h ∈ handlers → h.start.toNat ≤ p.offset →
      p.offset < h.stop.toNat → ReceiverStep code handlers (p.offset, held) (h.target.toNat, held)

/-- Control can come to the offset with the receiver in the local variable 0, or without it if `held` is `false`. -/
def ReceiverAt (code : List Placed) (handlers : List Handler) (u : Nat) (held : Bool) : Prop :=
  Relation.ReflTransGen (ReceiverStep code handlers) (0, true) (u, held)

/-- On every way to the offset the local variable 0 still holds the receiver. -/
def HoldsReceiver (code : List Placed) (handlers : List Handler) (u : Nat) : Prop :=
  ¬ ReceiverAt code handlers u false

/-- The instruction at `u` can be executed before control comes to `v`. -/
def Precedes (code : List Placed) (handlers : List Handler) (u v : Nat) : Prop :=
  Relation.ReflTransGen (Step code handlers) 0 u ∧
    ∃ w, Step code [] u w ∧ Relation.ReflTransGen (Step code handlers) w v

section
variable {code : List Placed} {handlers : List Handler}

/-- Whatever the local variable holds, control goes where it can go. -/
theorem ReceiverStep.step {x y : Nat × Bool} (h : ReceiverStep code handlers x y) : Step code handlers x.1 y.1 := by
  cases h with
  | advance hp hstep => exact step_iff.2 (Or.inl hstep)
  | raise hp hh hstart hstop => exact .raise hp hh hstart hstop

/-- The receiver is lost where the instruction writes the local variable, and goes on. -/
theorem ReceiverStep.lost {u u' : Nat} {held held' : Bool} (h : ReceiverStep code handlers (u, held) (u', held'))
    (hfalse : held' = false) :
    held = false ∨ ∃ p ∈ code, p.offset = u ∧ p.instruction.replacesReceiver = true ∧ Step code [] u u' := by
  cases h with
  | @advance p _ _ hp hadvance =>
    rcases Bool.and_eq_false_iff.1 hfalse with hheld | hreplaces
    · exact Or.inl hheld
    · exact Or.inr ⟨p, hp, rfl, by simpa using hreplaces, hadvance⟩
  | raise => exact Or.inl hfalse

theorem exists_receiverStep {u u' : Nat} (h : Step code handlers u u') (held : Bool) :
    ∃ held', ReceiverStep code handlers (u, held) (u', held') ∧ (held = false → held' = false) := by
  rcases step_iff.1 h with hadvance | ⟨p, hp, g, hg, rfl, rfl, hstart, hstop⟩
  · obtain ⟨p, hp, rfl⟩ : ∃ p ∈ code, p.offset = u := by
      cases hadvance with
      | fall hp => exact ⟨_, hp, rfl⟩
      | jump hp => exact ⟨_, hp, rfl⟩
      | ret hp => exact ⟨_, hp, rfl⟩
      | raise _ hh => cases hh
    exact ⟨_, .advance hp hadvance, fun hheld => by rw [hheld, Bool.false_and]⟩
  · exact ⟨held, .raise hp hg hstart hstop, id⟩

theorem ReceiverAt.reaches {u : Nat} {held : Bool} (h : ReceiverAt code handlers u held) :
    Relation.ReflTransGen (Step code handlers) 0 u :=
  Relation.ReflTransGen.lift Prod.fst (fun _ _ => ReceiverStep.step) _ _ h

/-- Control goes everywhere with something in the local variable, and what is lost does not come back. -/
theorem exists_receiverAt_of_reaches {u v : Nat} {held : Bool} (h : ReceiverAt code handlers u held)
    (hreaches : Relation.ReflTransGen (Step code handlers) u v) :
    ∃ held', ReceiverAt code handlers v held' ∧ (held = false → held' = false) := by
  induction hreaches with
  | refl => exact ⟨held, h, id⟩
  | tail _ hstep ih =>
    obtain ⟨held', hat, hlost⟩ := ih
    obtain ⟨held'', hstep', hlost'⟩ := exists_receiverStep hstep held'
    exact ⟨held'', hat.tail hstep', hlost' ∘ hlost⟩

theorem receiverAt_false_iff {u : Nat} :
    ReceiverAt code handlers u false ↔
      ∃ p ∈ code, p.instruction.replacesReceiver = true ∧ Precedes code handlers p.offset u := by
  constructor
  · intro h
    unfold ReceiverAt at h
    generalize hstate : (u, false) = state at h
    induction h generalizing u with
    | refl => cases hstate
    | @tail before _ hbefore hstep ih =>
      subst hstate
      obtain ⟨v, held⟩ := before
      rcases ReceiverStep.lost hstep rfl with rfl | ⟨p, hp, rfl, hreplaces, hadvance⟩
      · obtain ⟨p, hp, hreplaces, hstart, w, hw, hreach⟩ := ih rfl
        exact ⟨p, hp, hreplaces, hstart, w, hw, hreach.tail (ReceiverStep.step hstep)⟩
      · exact ⟨p, hp, hreplaces, ReceiverAt.reaches hbefore, u, hadvance, .refl⟩
  · rintro ⟨p, hp, hreplaces, hstart, w, hadvance, hreach⟩
    have hentry : ReceiverAt code handlers 0 true := .refl
    obtain ⟨held, hat, -⟩ := exists_receiverAt_of_reaches hentry hstart
    have hlost : ReceiverAt code handlers w false := by
      have hstep : ReceiverStep code handlers (p.offset, held) (w, held && !p.instruction.replacesReceiver) :=
        .advance hp hadvance
      rw [hreplaces, Bool.not_true, Bool.and_false] at hstep
      exact hat.tail hstep
    obtain ⟨held', hat', hfalse⟩ := exists_receiverAt_of_reaches hlost hreach
    rwa [hfalse rfl] at hat'

/-- The receiver is held on every way to an offset just when nothing that writes the local variable 0 can be executed
before. -/
theorem holdsReceiver_iff {u : Nat} :
    HoldsReceiver code handlers u ↔
      ∀ p ∈ code, p.instruction.replacesReceiver = true → ¬ Precedes code handlers p.offset u := by
  rw [HoldsReceiver, receiverAt_false_iff]
  simp only [not_exists, not_and]

/-- Straight code that does not write the local variable 0 passes on what it holds. -/
theorem receiverAt_layOut {is : List Instruction} {offset : Nat} {held : Bool} (hstraight : ∀ i ∈ is, i.IsStraight)
    (hkeeps : ∀ i ∈ is, i.replacesReceiver = false) (hcode : ∀ q ∈ Placed.layOut offset is, q ∈ code)
    (h : ReceiverAt code handlers offset held) :
    (∀ q ∈ Placed.layOut offset is, ReceiverAt code handlers q.offset held) ∧
      ReceiverAt code handlers (offset + (Instruction.straightBytes is).length) held := by
  induction is generalizing offset with
  | nil => exact ⟨by simp [Placed.layOut], h⟩
  | cons i is ih =>
    simp only [Placed.layOut, List.forall_mem_cons] at hstraight hkeeps hcode ⊢
    have hstep : ReceiverStep code handlers (offset, held) (offset + i.size offset, held && !i.replacesReceiver) :=
      .advance hcode.1 (.fall hcode.1 hstraight.1.fallsThrough)
    rw [hkeeps.1, Bool.not_false, Bool.and_true] at hstep
    obtain ⟨hall, hend⟩ := ih hstraight.2 hkeeps.2 hcode.2 (h.tail hstep)
    refine ⟨⟨h, hall⟩, ?_⟩
    rwa [hstraight.1.length_cons offset, ← Nat.add_assoc]

end

/-! ## Inserted instructions -/

theorem Placed.mem_of_mem_layOut {is : List Instruction} {offset : Nat} {q : Placed}
    (hq : q ∈ Placed.layOut offset is) : q.instruction ∈ is := by
  induction is generalizing offset with
  | nil => cases hq
  | cons i is ih =>
    rcases List.mem_cons.1 hq with rfl | hq
    · exact List.mem_cons_self
    · exact List.mem_cons_of_mem _ (ih hq)

namespace Inlining

variable {insertions : List Insertion} {e e' : Nat} {ss : List Splice} {inner : Splice → List Instruction}
  {handlers handlers' : List Handler} (h : Inlining insertions e e' ss inner handlers handlers')
include h

theorem bounds_of_within {s : Splice} (hs : s ∈ ss) {u : Nat}
    (hu : u = s.position ∨ ∃ q ∈ Placed.layOut s.start (inner s), q.offset = u) : s.start ≤ u ∧ u ≤ s.position := by
  rcases hu with rfl | ⟨q, hq, rfl⟩
  · exact ⟨Nat.le_add_right _ _, Nat.le_refl _⟩
  · have := h.layOut_bounds hs hq
    omega

/-- An offset belongs to one instruction of the old code. -/
theorem within_unique {u x y : Nat} (hx : Within e e' ss inner u x) (hy : Within e e' ss inner u y) : x = y := by
  rcases hx with ⟨rfl, rfl⟩ | ⟨s, hs, rfl, hu⟩ <;> rcases hy with ⟨hend, rfl⟩ | ⟨t, ht, rfl, hu'⟩
  · rfl
  · have := h.bounds_of_within ht hu'
    have := h.chain.position_lt ht
    omega
  · have := h.bounds_of_within hs hu
    have := h.chain.position_lt hs
    omega
  · have hs' := h.bounds_of_within hs hu
    have ht' := h.bounds_of_within ht hu'
    have := s.position_lt_stop
    have := t.position_lt_stop
    rw [h.chain.eq_of_between hs ht (u := u) hs'.1 (by omega) ht'.1 (by omega)]

variable (hkeeps : ∀ s ∈ ss, ∀ i ∈ inner s, i.replacesReceiver = false)
include hkeeps

/-- A step in the new code is one of the old code, or goes on to the instruction at which it is. -/
theorem receiverAt_step {u u' x : Nat} {held held' : Bool} (hu : Within e e' ss inner u x)
    (hold : ReceiverAt (ss.map (·.old)) handlers x held)
    (hstep : ReceiverStep (Splice.newCode ss inner) handlers' (u, held) (u', held')) :
    ∃ x', Within e e' ss inner u' x' ∧ ReceiverAt (ss.map (·.old)) handlers x' held' := by
  cases hstep with
  | @advance p _ _ hp hadvance =>
    obtain ⟨s, hs, ⟨hposition, o, hstep, htarget⟩ | ⟨q, hq, hoffset, rfl⟩⟩ := h.advance_cases hadvance
    · obtain rfl := h.within_unique hu (Or.inr ⟨s, hs, rfl, Or.inl hposition⟩)
      obtain rfl : p = ⟨s.position, s.moved⟩ := h.eq_of_offset hp (Splice.mem_newCode_moved hs) hposition
      rw [(h.moved s hs).replacesReceiver]
      exact ⟨o, (h.within_of_target htarget).1, hold.tail (.advance (List.mem_map_of_mem hs) hstep)⟩
    · obtain rfl := h.within_unique hu (Or.inr ⟨s, hs, rfl, Or.inr ⟨q, hq, hoffset⟩⟩)
      obtain rfl : p = q := h.eq_of_offset hp (Splice.mem_newCode_layOut hs hq) hoffset.symm
      rw [hkeeps s hs _ (Placed.mem_of_mem_layOut hq), Bool.not_false, Bool.and_true]
      exact ⟨_, h.within_next hs hq, hold⟩
  | raise hp hg' hstart hstop =>
    obtain ⟨s, hs, ⟨-, hu'⟩, g, hg, hgstart, hgstop, htarget⟩ := h.raise_cases hp hg' hstart hstop
    obtain rfl := h.within_unique hu (Or.inr ⟨s, hs, rfl, hu'⟩)
    exact ⟨_, (h.within_of_target htarget).1, hold.tail (.raise (List.mem_map_of_mem hs) hg hgstart hgstop)⟩

/-- Wherever control comes to in the new code, it could come to the instruction there in the old code with the same in
the local variable. -/
theorem exists_old_of_receiverAt {u : Nat} {held : Bool}
    (hat : ReceiverAt (Splice.newCode ss inner) handlers' u held) :
    ∃ x, Within e e' ss inner u x ∧ ReceiverAt (ss.map (·.old)) handlers x held := by
  unfold ReceiverAt at hat
  generalize hstate : (u, held) = state at hat
  induction hat generalizing u held with
  | refl =>
    cases hstate
    exact ⟨0, h.within_zero, .refl⟩
  | tail _ hstep ih =>
    subst hstate
    obtain ⟨x, hx, hold⟩ := ih rfl
    exact h.receiverAt_step hkeeps hx hold hstep

/-- Control comes to the instructions of the new code as it came to those of the old one, if what pointed at an
instruction points in front of what is inserted there. -/
theorem receiverAt_of_old (hcaptures : ∀ s ∈ ss, s.target = s.start) {x : Nat} {held : Bool}
    (hold : ReceiverAt (ss.map (·.old)) handlers x held) :
    ∃ u, (Splice.relocation ss e e').target x u ∧ ReceiverAt (Splice.newCode ss inner) handlers' u held := by
  unfold ReceiverAt at hold
  generalize hstate : (x, held) = state at hold
  induction hold generalizing x held with
  | refl =>
    cases hstate
    rcases h.chain.first with ⟨-, rfl, rfl⟩ | ⟨s, hs, hoffset, hstart⟩
    · exact ⟨0, Or.inl ⟨rfl, rfl⟩, .refl⟩
    · exact ⟨0, Or.inr ⟨s, hs, hoffset, (hcaptures s hs).trans hstart⟩, .refl⟩
  | @tail before _ _ hstep ih =>
    subst hstate
    obtain ⟨u, htarget, hat⟩ := ih rfl
    -- Control goes on through what is inserted in front of the instruction, and from there as in the old code.
    have hposition {s : Splice} (hs : s ∈ ss) (hoffset : s.old.offset = before.1) :
        ReceiverAt (Splice.newCode ss inner) handlers' s.position before.2 := by
      obtain rfl := h.chain.target_unique htarget (Or.inr ⟨s, hs, hoffset, hcaptures s hs⟩)
      rw [Splice.position, h.inserted s hs]
      exact (receiverAt_layOut (h.straight s hs) (hkeeps s hs) (fun q hq => Splice.mem_newCode_layOut hs hq) hat).2
    cases hstep with
    | @advance p _ _ hp hadvance =>
      obtain ⟨s, hs, rfl⟩ := List.mem_map.1 hp
      obtain ⟨u', htarget', hstep'⟩ := { h with handlers := .nil }.exists_step hs hadvance
      refine ⟨u', htarget', (hposition hs rfl).tail ?_⟩
      rw [← (h.moved s hs).replacesReceiver]
      exact .advance (Splice.mem_newCode_moved hs) hstep'
    | raise hp hg hstart hstop =>
      obtain ⟨s, hs, rfl⟩ := List.mem_map.1 hp
      obtain ⟨g', hg', hmoved⟩ := h.handlers.exists_of_mem hg
      obtain ⟨hstart', hstop'⟩ :=
        (h.guarded_iff hs s.target_le_position (Nat.le_refl _) hmoved).2 ⟨hstart, hstop⟩
      exact ⟨_, hmoved.target, (hposition hs rfl).tail (.raise (Splice.mem_newCode_moved hs) hg' hstart' hstop')⟩

/-- Inserted instructions find in the local variable 0 what the instruction behind them found there in the old code. -/
theorem receiverAt_iff (hcaptures : ∀ s ∈ ss, s.target = s.start) {s : Splice} (hs : s ∈ ss) {q : Placed}
    (hq : q ∈ Placed.layOut s.start (inner s)) {held : Bool} :
    ReceiverAt (Splice.newCode ss inner) handlers' q.offset held ↔
      ReceiverAt (ss.map (·.old)) handlers s.old.offset held := by
  constructor
  · intro hat
    obtain ⟨x, hx, hold⟩ := h.exists_old_of_receiverAt hkeeps hat
    rwa [h.within_unique hx (Or.inr ⟨s, hs, rfl, Or.inr ⟨q, hq, rfl⟩⟩)] at hold
  · intro hold
    obtain ⟨u, htarget, hat⟩ := h.receiverAt_of_old hkeeps hcaptures hold
    obtain rfl := h.chain.target_unique htarget (Or.inr ⟨s, hs, rfl, hcaptures s hs⟩)
    exact (receiverAt_layOut (h.straight s hs) (hkeeps s hs) (fun q hq => Splice.mem_newCode_layOut hs hq) hat).1 q hq

end Inlining

/-! ## Calls in front of returns -/

/-- Registrations do not write the local variable 0. -/
theorem Splice.replacesReceiver_atPoints (s : Splice) (points : List Nat) (steps : List RegistrationStep) :
    ∀ i ∈ s.atPoints points (steps.map RegistrationStep.instruction), i.replacesReceiver = false := by
  intro i hi
  rw [Splice.atPoints] at hi
  split_ifs at hi
  · obtain ⟨step, -, rfl⟩ := List.mem_map.1 hi
    exact Instruction.replacesReceiver_eq_false step.writesLocal_instruction
  · cases hi

/-- In front of the returns calls capture what pointed there, and elsewhere there is nothing to capture it. -/
theorem MethodBody.Spliced.target_eq_start {code code' bytes : List UInt8} {ss : List Splice} {entryLength : Nat}
    (h : Spliced (InjectionMode.exit.insertions entryLength (ss.map (·.old)) bytes) code code' ss)
    {s : Splice} (hs : s ∈ ss) : s.target = s.start := by
  have hpoints := InjectionMode.exit.nodup_points entryLength h.chain
  obtain ⟨hinserted, hcaptures⟩ := h.chain.inserted_eq hs
  rw [InjectionMode.insertions, Insertion.bytesAt_at hpoints] at hinserted
  rw [InjectionMode.insertions, Insertion.capturesAt_at hpoints] at hcaptures
  by_cases hpoint : s.old.offset ∈ InjectionMode.exit.points entryLength (ss.map (·.old))
  · rw [Splice.target, if_pos (by simpa [hpoint] using hcaptures)]
  · rw [if_neg hpoint] at hinserted
    rw [Splice.target, Splice.position, hinserted]
    split_ifs <;> rfl

/-- A rule that registers classes with the method `r` of `A`, in its method `m`. -/
def instanceRule : Rule := { registryRule with targetMethod := "m" }

/-- An instance method with the code. -/
def instanceMethod (maxStack : UInt8) (code : List UInt8) : Member where
  access := ⟨0⟩
  name := 2
  descriptor := 3
  attributes := [⟨1, [0, maxStack, 0, 1, 0, 0, 0, UInt8.ofNat code.length] ++ code ++ [0, 0, 0, 0]⟩]

/-- The class with that method, and with the method `r`. -/
def instanceFile (code : List UInt8) : ClassFile where
  minorVersion := 0
  majorVersion := 61
  pool := ⟨#[.unusable, .ofText codeName, .ofText "m", .ofText "()V", .ofText "r", .ofText "(LB;)V"]⟩
  access := ⟨0⟩
  thisClass := 0
  superClass := 0
  interfaces := []
  fields := []
  methods := [instanceMethod 1 code, ⟨⟨0⟩, 4, 5, []⟩]
  attributes := []

/-- The pool with the constants of the call of `r` for the class `B`. -/
def instancePool : ConstantPool where
  entries := #[.unusable, .ofText codeName, .ofText "m", .ofText "()V", .ofText "r", .ofText "(LB;)V", .ofText "B",
    .classRef 6, .ofText "<init>", .nameAndType 8 3, .methodRef 7 9, .ofText "A", .classRef 11, .nameAndType 4 5,
    .methodRef 12 13]

/-- The code of that call. -/
def instanceCall : List UInt8 := [0x2a, 0xbb, 0, 7, 0x59, 0xb7, 0, 10, 0xb6, 0, 14]

/-- Code that stores into the local variable 0 only on the way to an `athrow`, and returns on the other. -/
def throwingCode : List UInt8 := [0x2a, 0xc6, 0, 4, 0xb1, 0x01, 0x4b, 0x01, 0xbf]

/-- That code with the call in front of the return. -/
def throwingResult : List UInt8 := [0x2a, 0xc6, 0, 15] ++ instanceCall ++ [0xb1, 0x01, 0x4b, 0x01, 0xbf]

/-- Code that stores `null` into the local variable 0 and then returns. -/
def overwritingCode : List UInt8 := [0x01, 0x4b, 0xb1]

namespace ClassDraft

/-- **Receivers.** The instructions that are put in front of a return of an instance method find the receiver in the
local variable 0, on every way to them, just when no instruction that can be executed before the return writes this
variable, by a store or an `iinc` of whatever form. The loads of the receiver are among them. -/
theorem holdsReceiver_of_injectMethod {d : ClassDraft} {r : Rule} {calls : List RegisterCall}
    {pool pool' : ConstantPool} {t t' : TargetMethod} (hinstance : t.member.isStatic = false)
    (h : d.injectMethod r calls pool t = .ok (t', pool')) :
    ∃ steps body body' code code' ss,
      registrationSteps (d.context r false) calls pool = .ok steps pool' ∧
      t.member.HasBody pool' body ∧ Placed.decodeAll body.code = .ok code ∧
      t'.member.HasBody pool' body' ∧ Placed.decodeAll body'.code = .ok code' ∧
      MethodBody.Spliced (InjectionMode.exit.insertions 0 code (steps.flatMap RegistrationStep.encode)) body.code
        body'.code ss ∧
      ∀ s ∈ ss, s.old.instruction.isReturn = true →
        ∀ q ∈ Placed.layOut s.start (steps.map RegistrationStep.instruction),
          q ∈ code' ∧
            (HoldsReceiver code' body'.handlers q.offset ↔
              ∀ p ∈ code, p.instruction.replacesReceiver = true →
                ¬ Precedes code body.handlers p.offset s.old.offset) := by
  simp only [injectMethod, hinstance, InjectionMode.select?, if_true, Bool.false_and, Bool.false_eq_true, if_false,
    Except.bind_eq_ok_iff, Except.mapError_eq_ok_iff] at h
  obtain ⟨-, -, h⟩ := h
  obtain ⟨steps, hsteps, hmode, ⟨body, code, moved, maxStack, hbody, hcode, hmoved, -, hbody'⟩, -, -⟩ :=
    TargetMethod.inject_ok h
  rw [← RegistrationStep.straightBytes_map] at hmoved
  obtain ⟨ss, hspliced, rfl, hpoints, hinlining⟩ :=
    MethodBody.inlining_of_insert (forall_isStraight steps) hcode hmoved hmode
  have hdecoded := hspliced.decodeAll_eq hinlining.inserted hinlining.straight
  have hcaptures : ∀ s ∈ ss, s.target = s.start := fun s hs => hspliced.target_eq_start hs
  rw [RegistrationStep.straightBytes_map] at hspliced
  refine ⟨steps, body, _, _, _, ss, hsteps, hbody, hcode, hbody', hdecoded, hspliced, fun s hs hreturn q hq => ?_⟩
  have hpoint : s.old.offset ∈ InjectionMode.exit.points 0 (ss.map (·.old)) :=
    (hspliced.chain.offset_mem_points_exit hs).2 hreturn
  have hq' : q ∈ Placed.layOut s.start (s.atPoints (InjectionMode.exit.points 0 (ss.map (·.old)))
      (steps.map RegistrationStep.instruction)) := by rwa [Splice.atPoints, if_pos hpoint]
  refine ⟨Splice.mem_newCode_layOut hs hq', ?_⟩
  rw [← holdsReceiver_iff]
  exact not_congr (hinlining.receiverAt_iff (fun s _ => s.replacesReceiver_atPoints _ steps) hcaptures hs hq')

theorem injectMethod_throwing :
    (ClassDraft.of (instanceFile throwingCode)).injectMethod instanceRule [⟨"B", "(LB;)V", false, 0⟩]
      (instanceFile throwingCode).pool ⟨instanceMethod 1 throwingCode, 0⟩ =
        .ok (⟨instanceMethod 4 throwingResult, 0⟩, instancePool) := by
  decide +kernel

theorem holdsReceiver_of_injectMethod_throwing :
    ∃ steps body body' code code' ss,
      registrationSteps ((ClassDraft.of (instanceFile throwingCode)).context instanceRule false)
        [⟨"B", "(LB;)V", false, 0⟩] (instanceFile throwingCode).pool = .ok steps instancePool ∧
      (instanceMethod 1 throwingCode).HasBody instancePool body ∧ Placed.decodeAll body.code = .ok code ∧
      (instanceMethod 4 throwingResult).HasBody instancePool body' ∧ Placed.decodeAll body'.code = .ok code' ∧
      MethodBody.Spliced (InjectionMode.exit.insertions 0 code (steps.flatMap RegistrationStep.encode)) body.code
        body'.code ss ∧
      ∀ s ∈ ss, s.old.instruction.isReturn = true →
        ∀ q ∈ Placed.layOut s.start (steps.map RegistrationStep.instruction),
          q ∈ code' ∧
            (HoldsReceiver code' body'.handlers q.offset ↔
              ∀ p ∈ code, p.instruction.replacesReceiver = true →
                ¬ Precedes code body.handlers p.offset s.old.offset) :=
  holdsReceiver_of_injectMethod (by decide) injectMethod_throwing

/-- A method that stores `null` into the local variable 0 and then returns gets a call that is made on `null`. -/
theorem not_holdsReceiver :
    ∃ t' body' code',
      (ClassDraft.of (instanceFile overwritingCode)).injectMethod instanceRule [⟨"B", "(LB;)V", false, 0⟩]
        (instanceFile overwritingCode).pool ⟨instanceMethod 1 overwritingCode, 0⟩ = .ok (t', instancePool) ∧
      t'.member.HasBody instancePool body' ∧ body'.code = [0x01, 0x4b] ++ instanceCall ++ [0xb1] ∧
      Placed.decodeAll body'.code = .ok code' ∧ ⟨2, RegistrationStep.loadReceiver.instruction⟩ ∈ code' ∧
      ¬ HoldsReceiver code' body'.handlers 2 := by
  let instructions : List Instruction := [.plain 0x01 [], .plain 0x4b [], .plain Opcode.aload0 [],
    .plain Opcode.newObject [0, 7], .plain Opcode.dup [], .plain Opcode.invokeSpecial [0, 10],
    .plain Opcode.invokeVirtual [0, 14], .plain Opcode.returnVoid []]
  refine ⟨⟨instanceMethod 4 ([0x01, 0x4b] ++ instanceCall ++ [0xb1]), 0⟩,
    ⟨4, 1, [0x01, 0x4b] ++ instanceCall ++ [0xb1], [], []⟩, Placed.layOut 0 instructions, by decide +kernel,
    ⟨0, _, by decide +kernel, rfl, by decide +kernel⟩, rfl, by decide +kernel, by decide, ?_⟩
  rw [holdsReceiver_iff]
  intro hholds
  have hreaches : Step (Placed.layOut 0 instructions) [] 0 1 := .fall (p := ⟨0, .plain 0x01 []⟩) (by decide) rfl
  have hadvance : Step (Placed.layOut 0 instructions) [] 1 2 := .fall (p := ⟨1, .plain 0x4b []⟩) (by decide) rfl
  exact hholds ⟨1, .plain 0x4b []⟩ (by decide) rfl ⟨.single hreaches, 2, hadvance, .refl⟩

end ClassDraft

end Registrar
