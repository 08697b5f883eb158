import Registrar.Injection.Registration
import Registrar.Proofs.Insertion

/-!
# Straight code

Code that runs from its first byte to its last, and what it is to put the same straight code in front of several
instructions.

* `Instruction.fallsThrough`, `Instruction.distances` : where control goes after an instruction;
* `Instruction.IsStraight` : control goes on behind the instruction and nowhere else;
* `Placed.layOut` : instructions one behind the other;
* `Insertion.at` : the same bytes at several offsets;
* `Splice.placed` : the instructions that a splice stands for. `Spliced.decodeAll_eq` : they are the new code;
* `RegistrationStep.instruction` : registrations are straight code.
-/

namespace Registrar

/-! ## Where control goes -/

namespace Opcode

/-- Jumps. -/
def goto : UInt8 := 0xa7
/-- Calls a subroutine of the method. -/
def jsr : UInt8 := 0xa8
/-- Returns from a subroutine. -/
def ret : UInt8 := 0xa9
/-- Throws an exception. -/
def athrow : UInt8 := 0xbf
/-- Calls a subroutine far away. -/
def jsrWide : UInt8 := 0xc9

end Opcode

namespace Instruction

/-- Whether the instruction returns from a subroutine. -/
def isRet : Instruction → Bool
  | .plain opcode operands => opcode == Opcode.ret || (opcode == Opcode.wide && operands.head? == some Opcode.ret)
  | _ => false

/-- Whether the instruction calls a subroutine. -/
def isJsr : Instruction → Bool
  | .branch opcode _ => opcode == Opcode.jsr
  | .wideBranch opcode _ => opcode == Opcode.jsrWide
  | _ => false

/-- Whether control can go on behind the instruction. -/
def fallsThrough : Instruction → Bool
  | .plain opcode operands =>
    !(Opcode.isReturn opcode || opcode == Opcode.athrow || isRet (.plain opcode operands))
  | .branch opcode _ => opcode != Opcode.goto && opcode != Opcode.jsr
  | _ => false

/-- The distances that the instruction may jump. -/
def distances : Instruction → List Int
  | .plain _ _ => []
  | .branch _ distance => [distance.toInt]
  | .wideBranch _ distance => [distance.toInt]
  | .tableSwitch fallback _ _ distances => fallback.toInt :: distances.map (·.toInt)
  | .lookupSwitch fallback _ cases => fallback.toInt :: cases.map (·.2.toInt)

/-- Control goes on behind the instruction and nowhere else. -/
structure IsStraight (i : Instruction) : Prop where
  plain : ∃ opcode operands, i = .plain opcode operands
  wellFormed : i.WellFormed
  fallsThrough : i.fallsThrough = true

theorem isStraight_plain {opcode : UInt8} {operands : List UInt8}
    (h : Opcode.isBranch opcode = false ∧ Opcode.isWideBranch opcode = false ∧ Opcode.isReturn opcode = false ∧
      opcode ∉ [Opcode.tableSwitch, Opcode.lookupSwitch, Opcode.athrow, Opcode.ret, Opcode.wide])
    (hlength : Opcode.fixedLength? opcode = some (1 + operands.length)) : IsStraight (.plain opcode operands) := by
  simp only [List.mem_cons, List.not_mem_nil, or_false, not_or] at h
  obtain ⟨hbranch, hwideBranch, hreturn, htable, hlookup, hthrow, hret, hwide⟩ := h
  refine ⟨⟨_, _, rfl⟩, ⟨hbranch, hwideBranch, htable, hlookup, ?_⟩, ?_⟩
  · rwa [if_neg hwide]
  · simp [Instruction.fallsThrough, Instruction.isRet, hreturn, hthrow, hret, hwide]

theorem IsStraight.spell {i : Instruction} (h : i.IsStraight) (pad pad' : List UInt8) : i.spell pad = i.spell pad' := by
  obtain ⟨opcode, operands, rfl⟩ := h.plain
  rfl

theorem IsStraight.size {i : Instruction} (h : i.IsStraight) (offset : Nat) : i.size offset = (i.spell []).length := by
  obtain ⟨opcode, operands, rfl⟩ := h.plain
  simp [Instruction.size, Instruction.spell, Nat.add_comm]

theorem IsStraight.distances {i : Instruction} (h : i.IsStraight) : i.distances = [] := by
  obtain ⟨opcode, operands, rfl⟩ := h.plain
  rfl

theorem IsStraight.isReturn {i : Instruction} (h : i.IsStraight) : i.isReturn = false := by
  obtain ⟨opcode, operands, rfl⟩ := h.plain
  have hfalls := h.fallsThrough
  simp only [Instruction.fallsThrough, Bool.not_eq_true', Bool.or_eq_false_iff] at hfalls
  exact hfalls.1.1

theorem IsStraight.isRet {i : Instruction} (h : i.IsStraight) : i.isRet = false := by
  obtain ⟨opcode, operands, rfl⟩ := h.plain
  have hfalls := h.fallsThrough
  simp only [Instruction.fallsThrough, Bool.not_eq_true', Bool.or_eq_false_iff] at hfalls
  exact hfalls.2

theorem IsStraight.isJsr {i : Instruction} (h : i.IsStraight) : i.isJsr = false := by
  obtain ⟨opcode, operands, rfl⟩ := h.plain
  rfl

/-- The bytes of straight code. -/
def straightBytes (is : List Instruction) : List UInt8 := is.flatMap (Instruction.spell [])

theorem straightBytes_cons (i : Instruction) (is : List Instruction) :
    straightBytes (i :: is) = i.spell [] ++ straightBytes is := List.flatMap_cons

theorem straightBytes_append (is js : List Instruction) :
    straightBytes (is ++ js) = straightBytes is ++ straightBytes js := List.flatMap_append

theorem IsStraight.length_cons {i : Instruction} (h : i.IsStraight) (offset : Nat) (is : List Instruction) :
    (straightBytes (i :: is)).length = i.size offset + (straightBytes is).length := by
  rw [h.size, straightBytes_cons, List.length_append]

end Instruction

/-! ## Instructions in a row -/

namespace Placed

/-- Instructions one behind the other. -/
def layOut (offset : Nat) : List Instruction → List Placed
  | [] => []
  | i :: is => ⟨offset, i⟩ :: layOut (offset + i.size offset) is

end Placed

section
variable {is : List Instruction} (his : ∀ i ∈ is, i.IsStraight)
include his

theorem Tiles.layOut_append {offset : Nat} {bytes : List UInt8} {ps : List Placed}
    (h : Tiles (offset + (Instruction.straightBytes is).length) bytes ps) :
    Tiles offset (Instruction.straightBytes is ++ bytes) (Placed.layOut offset is ++ ps) := by
  induction is generalizing offset with
  | nil => exact h
  | cons i is ih =>
    have hi := his i List.mem_cons_self
    have hbytes : Instruction.straightBytes (i :: is) ++ bytes =
        i.spell (List.replicate (Instruction.padding offset) 0) ++ (Instruction.straightBytes is ++ bytes) := by
      rw [Instruction.straightBytes_cons, List.append_assoc, hi.spell [] (List.replicate _ 0)]
    rw [hbytes]
    refine .cons hi.wellFormed List.length_replicate (ih (List.forall_mem_cons.1 his).2 ?_)
    rwa [Nat.add_assoc, ← hi.length_cons]

/-- An instruction of straight code lies between its ends. -/
theorem Placed.layOut_bounds {offset : Nat} {q : Placed} (hq : q ∈ Placed.layOut offset is) :
    offset ≤ q.offset ∧ q.next ≤ offset + (Instruction.straightBytes is).length ∧ q.instruction.IsStraight := by
  induction is generalizing offset with
  | nil => cases hq
  | cons i is ih =>
    have hi := his i List.mem_cons_self
    rw [hi.length_cons offset]
    rcases List.mem_cons.1 hq with rfl | hq
    · exact ⟨Nat.le_refl _, by show offset + i.size offset ≤ _; omega, hi⟩
    · obtain ⟨h1, h2, h3⟩ := ih (List.forall_mem_cons.1 his).2 hq
      exact ⟨by omega, by omega, h3⟩

/-- Behind an instruction of straight code stands the next one, or the end. -/
theorem Placed.layOut_following {offset : Nat} {q : Placed} (hq : q ∈ Placed.layOut offset is) :
    q.next = offset + (Instruction.straightBytes is).length ∨ ∃ r ∈ Placed.layOut offset is, r.offset = q.next := by
  induction is generalizing offset with
  | nil => cases hq
  | cons i is ih =>
    have hi := his i List.mem_cons_self
    rw [hi.length_cons offset, ← Nat.add_assoc]
    rcases List.mem_cons.1 hq with rfl | hq
    · cases is with
      | nil => exact Or.inl rfl
      | cons j is => exact Or.inr ⟨⟨offset + i.size offset, j⟩, by simp [Placed.layOut], rfl⟩
    · rcases ih (List.forall_mem_cons.1 his).2 hq with hend | ⟨r, hr, hoff⟩
      · exact Or.inl hend
      · exact Or.inr ⟨r, List.mem_cons_of_mem _ hr, hoff⟩

theorem Instruction.length_take_lt {i j : Nat} (hij : i < j) (hj : j ≤ is.length) :
    (straightBytes (is.take i)).length < (straightBytes (is.take j)).length := by
  induction is generalizing i j with
  | nil => exact absurd (Nat.lt_of_lt_of_le hij hj) (Nat.not_lt_zero i)
  | cons k is ih =>
    have hk := his k List.mem_cons_self
    have hpos := Instruction.size_pos 0 k
    obtain ⟨j, rfl⟩ : ∃ l, j = l + 1 := ⟨j - 1, by omega⟩
    rw [List.take_succ_cons, hk.length_cons 0]
    cases i with
    | zero =>
      show 0 < _
      omega
    | succ i =>
      rw [List.take_succ_cons, hk.length_cons 0]
      have := ih (List.forall_mem_cons.1 his).2 (Nat.lt_of_succ_lt_succ hij) (Nat.le_of_succ_le_succ hj)
      omega

/-- An instruction of straight code stands behind the ones before it. -/
theorem Placed.exists_take_of_mem_layOut {offset : Nat} {q : Placed} (hq : q ∈ Placed.layOut offset is) :
    ∃ i < is.length, q.offset = offset + (Instruction.straightBytes (is.take i)).length ∧
      q.next = offset + (Instruction.straightBytes (is.take (i + 1))).length := by
  induction is generalizing offset with
  | nil => cases hq
  | cons i is ih =>
    have hi := his i List.mem_cons_self
    rcases List.mem_cons.1 hq with rfl | hq
    · refine ⟨0, Nat.succ_pos _, rfl, ?_⟩
      rw [List.take_succ_cons, hi.length_cons offset]
      rfl
    · obtain ⟨l, hl, hoff, hnext⟩ := ih (List.forall_mem_cons.1 his).2 hq
      refine ⟨l + 1, Nat.succ_lt_succ hl, ?_, ?_⟩
      · rw [List.take_succ_cons, hi.length_cons offset, hoff, Nat.add_assoc]
      · rw [List.take_succ_cons, hi.length_cons offset, hnext, Nat.add_assoc]

end

/-! ## The same code at several offsets -/

/-- The same bytes at several offsets. -/
def Insertion.at (offsets : List Nat) (bytes : List UInt8) (captures : Bool) : List Insertion :=
  offsets.map fun offset => ⟨offset, bytes, captures⟩

section
variable {offsets : List Nat} (hoffsets : offsets.Nodup)
include hoffsets

theorem Insertion.group_at (bytes : List UInt8) (captures : Bool) (o : Nat) :
    Insertion.group (Insertion.at offsets bytes captures) o = if o ∈ offsets then [⟨o, bytes, captures⟩] else [] := by
  induction offsets with
  | nil => rfl
  | cons offset offsets ih =>
    rw [List.nodup_cons] at hoffsets
    have ih' := ih hoffsets.2
    rw [Insertion.group] at ih' ⊢
    rw [Insertion.at, List.map_cons, List.filter_cons]
    by_cases h : offset = o
    · subst h
      rw [if_neg hoffsets.1] at ih'
      simp only [beq_self_eq_true, if_true, List.mem_cons_self]
      exact congrArg _ ih'
    · rw [if_neg (by simpa using h)]
      refine Eq.trans ih' ?_
      simp [Ne.symm h]

theorem Insertion.bytesAt_at (bytes : List UInt8) (captures : Bool) (o : Nat) :
    Insertion.bytesAt (Insertion.at offsets bytes captures) o = if o ∈ offsets then bytes else [] := by
  rw [Insertion.bytesAt, Insertion.group_at hoffsets]
  split_ifs <;> simp [Insertion.groupBytes]

theorem Insertion.capturesAt_at (bytes : List UInt8) (captures : Bool) (o : Nat) :
    Insertion.capturesAt (Insertion.at offsets bytes captures) o = (decide (o ∈ offsets) && captures) := by
  rw [Insertion.capturesAt, Insertion.group_at hoffsets]
  split_ifs with h <;> simp [h]

end

/-! ## The new code -/

namespace Splice

/-- The instructions that a splice stands for, if the inserted ones are `is`. -/
def placed (s : Splice) (is : List Instruction) : List Placed := Placed.layOut s.start is ++ [⟨s.position, s.moved⟩]

theorem Chain.tiles {insertions : List Insertion} {o n e e' : Nat} {ss : List Splice}
    {inner : Splice → List Instruction} (h : Chain insertions o n ss e e') (hmoved : ∀ s ∈ ss, s.moved.WellFormed)
    (hsize : ∀ s ∈ ss, s.moved.size s.position = s.old.instruction.size s.position)
    (hinserted : ∀ s ∈ ss, s.inserted = Instruction.straightBytes (inner s))
    (hstraight : ∀ s ∈ ss, ∀ i ∈ inner s, i.IsStraight) :
    Tiles n (ss.flatMap bytes) (ss.flatMap fun s => s.placed (inner s)) := by
  induction h with
  | nil o n => exact .nil n
  | @cons s ss _ _ _ _ _ ih =>
    have hs := hinserted s List.mem_cons_self
    have htail := ih (List.forall_mem_cons.1 hmoved).2 (List.forall_mem_cons.1 hsize).2
      (List.forall_mem_cons.1 hinserted).2 (List.forall_mem_cons.1 hstraight).2
    rw [stop, ← hsize s List.mem_cons_self] at htail
    have hposition : s.start + (Instruction.straightBytes (inner s)).length = s.position := by rw [← hs, position]
    rw [List.flatMap_cons, List.flatMap_cons, bytes, placed, hs, List.append_assoc, List.append_assoc]
    refine Tiles.layOut_append (hstraight s List.mem_cons_self) ?_
    rw [hposition]
    exact .cons (hmoved s List.mem_cons_self) List.length_replicate htail

end Splice

theorem Tiles.wellFormed {offset : Nat} {code : List UInt8} {ps : List Placed} (h : Tiles offset code ps) :
    ∀ p ∈ ps, p.instruction.WellFormed := by
  induction h with
  | nil => simp
  | cons hi _ _ ih => exact List.forall_mem_cons.2 ⟨hi, ih⟩

/-- The new code consists of the inserted instructions, if these are straight code, and of the relocated ones. -/
theorem MethodBody.Spliced.decodeAll_eq {insertions : List Insertion} {code code' : List UInt8} {ss : List Splice}
    {inner : Splice → List Instruction} (h : Spliced insertions code code' ss)
    (hinserted : ∀ s ∈ ss, s.inserted = Instruction.straightBytes (inner s))
    (hstraight : ∀ s ∈ ss, ∀ i ∈ inner s, i.IsStraight) :
    Placed.decodeAll code' = .ok (ss.flatMap fun s => s.placed (inner s)) := by
  have hold := (Placed.decodeAll_eq_ok_iff.1 h.decoded).wellFormed
  have htiles := h.chain.tiles (fun s hs => (h.moved s hs).wellFormed (hold _ (List.mem_map_of_mem hs)))
    (fun s hs => (h.moved s hs).size s.position) hinserted hstraight
  rw [← h.bytes] at htiles
  exact Placed.decodeAll_eq_ok_iff.2 htiles

/-! ## Registrations -/

namespace RegistrationStep

/-- The instruction of a step. -/
def instruction : RegistrationStep → Instruction
  | .loadReceiver => .plain Opcode.aload0 []
  | .newObject owner => .plain Opcode.newObject (bytes16 owner)
  | .duplicate => .plain Opcode.dup []
  | .construct method => .plain Opcode.invokeSpecial (bytes16 method)
  | .callStatic method => .plain Opcode.invokeStatic (bytes16 method)
  | .callVirtual method => .plain Opcode.invokeVirtual (bytes16 method)
  | .callInterface method => .plain Opcode.invokeInterface (bytes16 method ++ [2, 0])
  | .drop => .plain Opcode.pop []
  | .dropTwo => .plain Opcode.pop2 []

theorem encode_eq_spell (s : RegistrationStep) : s.encode = s.instruction.spell [] := by
  cases s <;> rfl

theorem isStraight (s : RegistrationStep) : s.instruction.IsStraight := by
  cases s <;> exact Instruction.isStraight_plain (by decide) rfl

end RegistrationStep

theorem RegistrationStep.straightBytes_map (steps : List RegistrationStep) :
    Instruction.straightBytes (steps.map instruction) = steps.flatMap encode := by
  rw [Instruction.straightBytes, List.flatMap_map]
  exact congrArg (List.flatMap · steps) (funext fun s => (s.encode_eq_spell).symm)

/-- The bytes of a registration are those of its steps, which are straight code. -/
theorem registration_eq_ok_iff {context : CallContext} {calls : List RegisterCall} {pool pool' : ConstantPool}
    {code : List UInt8} :
    registration context calls pool = .ok code pool' ↔
      ∃ steps, registrationSteps context calls pool = .ok steps pool' ∧
        code = Instruction.straightBytes (steps.map RegistrationStep.instruction) := by
  simp only [registration, EStateM.bind_eq_ok_iff, EStateM.pure_eq_ok_iff, RegistrationStep.straightBytes_map]
  constructor
  · rintro ⟨steps, pool₁, hsteps, rfl, rfl⟩
    exact ⟨steps, hsteps, rfl⟩
  · rintro ⟨steps, hsteps, rfl⟩
    exact ⟨steps, pool', hsteps, rfl, rfl⟩

theorem forall_isStraight (steps : List RegistrationStep) :
    ∀ i ∈ steps.map RegistrationStep.instruction, i.IsStraight := by
  simp only [List.forall_mem_map]
  exact fun s _ => s.isStraight

end Registrar
