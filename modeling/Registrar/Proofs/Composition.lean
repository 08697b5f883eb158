import Registrar.Proofs.Methods

/-!
# Inserting twice

Straight code is put in front of instructions, and then other code in front of the same instructions, behind the first.
This is putting both in at once.

* `Splice.Merged` : one splice for the splices that an instruction and the code in front of it turn into;
* `Chain.exists_merged` : the splices of both insertions merge. `Splice.relocation_merged` : their relocation is one
  after the other. `Spliced.merge` : so the code is the same;
* `SamePoints` : the second code goes where the first one went, in a code with the first one in it;
* `MethodBody.insert_insert` : the method body is the same. `insert_before_return` : if nothing but calls stands in
  front of a return, more calls go behind them.
-/

namespace Registrar

namespace Splice

variable {insertions : List Insertion} {o n e e' : Nat} {ss : List Splice}

/-! ## Splices of straight code -/

theorem Chain.of_append {xs ys : List Splice} (h : Chain insertions o n (xs ++ ys) e e') :
    ∃ m m', Chain insertions o n xs m m' ∧ Chain insertions m m' ys e e' := by
  induction xs generalizing o n with
  | nil => exact ⟨o, n, .nil o n, h⟩
  | cons x xs ih =>
    cases h with
    | cons hi hc hrest =>
      obtain ⟨m, m', hxs, hys⟩ := ih hrest
      exact ⟨m, m', .cons hi hc hxs, hys⟩

theorem Chain.cons_iff {s : Splice} : Chain insertions o n (s :: ss) e e' ↔
    s.old.offset = o ∧ s.start = n ∧ s.inserted = Insertion.bytesAt insertions s.old.offset ∧
      s.captures = Insertion.capturesAt insertions s.old.offset ∧ Chain insertions s.old.next s.stop ss e e' := by
  constructor
  · intro h
    cases h with
    | cons hi hc hrest => exact ⟨rfl, rfl, hi, hc, hrest⟩
  · rintro ⟨rfl, rfl, hi, hc, hrest⟩
    exact .cons hi hc hrest

/-- Straight code in which nothing is inserted stays what it is. -/
theorem Chain.of_layOut {is : List Instruction} {m m' : Nat} {xs : List Splice} (his : ∀ i ∈ is, i.IsStraight)
    (h : Chain insertions o n xs m m') (hold : xs.map (·.old) = Placed.layOut o is)
    (hmoved : ∀ x ∈ xs, x.moved = x.old.instruction)
    (hnone : ∀ q ∈ Placed.layOut o is, Insertion.bytesAt insertions q.offset = []) :
    m = o + (Instruction.straightBytes is).length ∧ m' = n + (Instruction.straightBytes is).length ∧
      xs.flatMap bytes = Instruction.straightBytes is ∧ (is = [] ∨ ∃ x ∈ xs, x.old.offset = o ∧ x.target = n) := by
  induction is generalizing o n xs with
  | nil =>
    obtain rfl := List.map_eq_nil_iff.1 hold
    cases h
    exact ⟨rfl, rfl, rfl, Or.inl rfl⟩
  | cons i is ih =>
    obtain ⟨x, xs, rfl, hx, hxs⟩ := List.map_eq_cons_iff.1 hold
    have hi := his i List.mem_cons_self
    cases h with
    | cons hinserted hcaptures hrest =>
      have hempty : x.inserted = [] := by rw [hinserted, hx, hnone _ List.mem_cons_self]
      have hposition : x.position = x.start := by rw [position, hempty]; rfl
      have hinstruction : x.old.instruction = i := by rw [hx]
      have hnext : x.old.next = x.old.offset + i.size x.old.offset := by rw [Placed.next, hinstruction]
      have hstop : x.stop = x.start + i.size x.old.offset := by
        rw [stop, hposition, hinstruction, hi.size, hi.size]
      rw [hnext, hstop] at hrest
      obtain ⟨hm, hm', hbytes, -⟩ := ih (List.forall_mem_cons.1 his).2 hrest hxs (List.forall_mem_cons.1 hmoved).2
        (List.forall_mem_cons.1 hnone).2
      refine ⟨?_, ?_, ?_, Or.inr ⟨x, List.mem_cons_self, rfl, ?_⟩⟩
      · rw [hm, hi.length_cons x.old.offset, Nat.add_assoc]
      · rw [hm', hi.length_cons x.old.offset, Nat.add_assoc]
      · rw [List.flatMap_cons, hbytes, bytes, hempty, hmoved x List.mem_cons_self, hinstruction, List.nil_append,
          hi.spell _ [], Instruction.straightBytes_cons]
      · rw [target, hposition]
        split_ifs <;> rfl

theorem Chain.eq_of_position (h : Chain insertions o n ss e e') {s t : Splice} (hs : s ∈ ss) (ht : t ∈ ss)
    (hst : s.position = t.position) : s = t := by
  have hs' : s.start ≤ s.position := Nat.le_add_right _ _
  have ht' : t.start ≤ t.position := Nat.le_add_right _ _
  have hslt := s.position_lt_stop
  have htlt := t.position_lt_stop
  rcases h.eq_or_apart hs ht with rfl | ⟨-, hle⟩ | ⟨-, hle⟩
  · rfl
  · omega
  · omega

/-! ## Merging -/

/-- One splice for the code of `s` from `start` on, the code of `y` behind it, and the instruction as `y` leaves it. -/
def join (s y : Splice) (start : Nat) : Splice := ⟨s.old, start, s.inserted ++ y.inserted, s.captures, y.moved⟩

section
variable {s y : Splice} {start : Nat} (hstart : y.start = start + s.inserted.length)
include hstart

theorem position_join : (s.join y start).position = y.position := by
  rw [position, position, hstart, Nat.add_assoc, ← List.length_append]
  rfl

theorem stop_join (hsize : ∀ offset, y.old.instruction.size offset = s.old.instruction.size offset) :
    (s.join y start).stop = y.stop := by
  rw [stop, stop, position_join hstart, hsize]
  rfl

theorem bytes_join : (s.join y start).bytes = s.inserted ++ y.bytes := by
  rw [bytes, bytes, position_join hstart, ← List.append_assoc]
  rfl

/-- What pointed at the instruction points at the code of `s` or at the instruction, whatever is in between. -/
theorem exists_target_join {xs ys : List Splice} (hoffset : y.old.offset = s.position)
    (hcaptures : y.captures = s.captures)
    (hfirst : s.inserted.length = 0 ∨ ∃ x ∈ xs, x.old.offset = s.start ∧ x.target = start) :
    ∃ z ∈ xs ++ y :: ys, z.old.offset = s.target ∧ z.target = (s.join y start).target := by
  have hy : y ∈ xs ++ y :: ys := List.mem_append_right _ List.mem_cons_self
  have hjoin : (s.join y start).target = if s.captures then start else y.position := by
    rw [target, position_join hstart]
    rfl
  by_cases hcapture : s.captures = true
  · rw [target, hjoin, if_pos hcapture, if_pos hcapture]
    rcases hfirst with hempty | ⟨x, hx, hxoffset, hxtarget⟩
    · refine ⟨y, hy, ?_, ?_⟩
      · rw [hoffset, position, hempty, Nat.add_zero]
      · rw [target, if_pos (hcaptures.trans hcapture), hstart, hempty, Nat.add_zero]
    · exact ⟨x, List.mem_append_left _ hx, hxoffset, hxtarget⟩
  · rw [target, hjoin, if_neg hcapture, if_neg hcapture]
    refine ⟨y, hy, hoffset, ?_⟩
    rw [target, if_neg (by rw [hcaptures]; exact hcapture)]

end

/-- The splice `s` stands for the splice `s₁` after those of the new code in `ss₂`: one of the instruction of `s₁`, and
one of what pointed at it. -/
structure Merged (ss₂ : List Splice) (s₁ s : Splice) : Prop where
  old : s.old = s₁.old
  instruction : ∃ y ∈ ss₂, y.old = ⟨s₁.position, s₁.moved⟩ ∧ y.position = s.position ∧ y.moved = s.moved
  target : ∃ z ∈ ss₂, z.old.offset = s₁.target ∧ z.target = s.target

theorem Merged.mono {ss₂ ss₂' : List Splice} {s₁ s : Splice} (h : Merged ss₂ s₁ s) (hss : ∀ x ∈ ss₂, x ∈ ss₂') :
    Merged ss₂' s₁ s := by
  obtain ⟨hold, ⟨y, hy, hinstruction⟩, z, hz, htarget⟩ := h
  exact ⟨hold, ⟨y, hss y hy, hinstruction⟩, z, hss z hz, htarget⟩

/-- What is inserted at an instruction in one go is what is inserted first and then second. -/
structure Joins (insertions insertions₂ : List Insertion) (is : List Instruction) (s₁ : Splice) : Prop where
  inside : ∀ q ∈ Placed.layOut s₁.start is, Insertion.bytesAt insertions₂ q.offset = []
  bytes : Insertion.bytesAt insertions s₁.old.offset = s₁.inserted ++ Insertion.bytesAt insertions₂ s₁.position
  captures : Insertion.capturesAt insertions s₁.old.offset = s₁.captures
  captures₂ : Insertion.capturesAt insertions₂ s₁.position = s₁.captures

theorem Chain.exists_merged {insertions₁ insertions₂ : List Insertion} {n₂ e₁ e₂ : Nat} {ss₁ ss₂ : List Splice}
    {inner : Splice → List Instruction} (h₁ : Chain insertions₁ o n ss₁ e e₁) (h₂ : Chain insertions₂ n n₂ ss₂ e₁ e₂)
    (hold : ss₂.map (·.old) = ss₁.flatMap fun s => s.placed (inner s))
    (hsize : ∀ s ∈ ss₁, ∀ offset, s.moved.size offset = s.old.instruction.size offset)
    (hinserted : ∀ s ∈ ss₁, s.inserted = Instruction.straightBytes (inner s))
    (hstraight : ∀ s ∈ ss₁, ∀ i ∈ inner s, i.IsStraight)
    (hmoved : ∀ x ∈ ss₂, x.old.instruction.IsStraight → x.moved = x.old.instruction)
    (hjoins : ∀ s ∈ ss₁, Joins insertions insertions₂ (inner s) s) :
    ∃ ss, Chain insertions o n₂ ss e e₂ ∧ ss.map (·.old) = ss₁.map (·.old) ∧ ss.flatMap bytes = ss₂.flatMap bytes ∧
      List.Forall₂ (Merged ss₂) ss₁ ss := by
  induction h₁ generalizing n₂ ss₂ with
  | nil o n =>
    obtain rfl := List.map_eq_nil_iff.1 hold
    cases h₂
    exact ⟨[], .nil _ _, rfl, rfl, .nil⟩
  | @cons s ss₁ _ _ _ _ _ ih =>
    rw [List.flatMap_cons, placed, List.append_assoc] at hold
    obtain ⟨xs, rest, rfl, hxs, hrest⟩ := List.map_eq_append_iff.1 hold
    obtain ⟨y, ys, rfl, hy, hys⟩ := List.map_eq_cons_iff.1 hrest
    obtain ⟨hinside, hbytes, hcaptures, hcaptures₂⟩ := hjoins s List.mem_cons_self
    have his := hstraight s List.mem_cons_self
    have hlength := congrArg List.length (hinserted s List.mem_cons_self)
    obtain ⟨m, m', hchain, htail⟩ := h₂.of_append
    obtain ⟨rfl, rfl, hxsbytes, hfirst⟩ := hchain.of_layOut his hxs
      (fun x hx => hmoved x (List.mem_append_left _ hx) (Placed.layOut_bounds his (hxs ▸ List.mem_map_of_mem hx)).2.2)
      hinside
    rw [← hlength] at htail
    obtain ⟨-, hstart, hyinserted, hycaptures, htail⟩ := Chain.cons_iff.1 htail
    have hyoffset : y.old.offset = s.position := by rw [hy]
    have hsizes (offset : Nat) : y.old.instruction.size offset = s.old.instruction.size offset := by
      rw [hy, hsize s List.mem_cons_self]
    rw [hyoffset] at hyinserted hycaptures
    have hnext : y.old.next = s.stop := by rw [Placed.next, stop, hyoffset, hsizes]
    rw [hnext] at htail
    obtain ⟨rs, hrs, hrsold, hrsbytes, hmerged⟩ := ih htail hys (List.forall_mem_cons.1 hsize).2
      (List.forall_mem_cons.1 hinserted).2 (List.forall_mem_cons.1 hstraight).2
      (fun t ht => hmoved t (List.mem_append_right _ (List.mem_cons_of_mem _ ht))) (List.forall_mem_cons.1 hjoins).2
    have hy' : y ∈ xs ++ y :: ys := List.mem_append_right _ List.mem_cons_self
    have hempty : s.inserted.length = 0 ∨ ∃ x ∈ xs, x.old.offset = s.start ∧ x.target = n₂ :=
      hfirst.imp_left fun hnil => by rw [hlength, hnil]; rfl
    have htarget : ∃ z ∈ xs ++ y :: ys, z.old.offset = s.target ∧ z.target = (s.join y n₂).target :=
      exists_target_join hstart hyoffset (hycaptures.trans hcaptures₂) hempty
    refine ⟨s.join y n₂ :: rs, .cons (s := s.join y n₂) ?_ hcaptures.symm ?_, ?_, ?_,
      .cons ⟨rfl, ⟨y, hy', hy, (position_join hstart).symm, rfl⟩, htarget⟩ ?_⟩
    · show s.inserted ++ y.inserted = _
      rw [hyinserted]
      exact hbytes.symm
    · rw [stop_join hstart hsizes]
      exact hrs
    · rw [List.map_cons, hrsold, List.map_cons]
      rfl
    · rw [List.flatMap_cons, hrsbytes, List.flatMap_append, List.flatMap_cons, hxsbytes, bytes_join hstart,
        ← hinserted s List.mem_cons_self, List.append_assoc]
    · exact hmerged.imp fun _ _ h => h.mono fun _ ht => List.mem_append_right _ (List.mem_cons_of_mem _ ht)

/-- The relocation of both insertions is one relocation after the other. -/
theorem relocation_merged {insertions₁ insertions₂ : List Insertion} {n₂ e₁ e₂ : Nat} {ss₁ ss₂ : List Splice}
    (h₁ : Chain insertions₁ o n ss₁ e e₁) (h₂ : Chain insertions₂ n n₂ ss₂ e₁ e₂)
    (h : List.Forall₂ (Merged ss₂) ss₁ ss) :
    relocation ss e e₂ = (relocation ss₁ e e₁).comp (relocation ss₂ e₁ e₂) := by
  ext t t'
  · constructor
    · rintro (⟨rfl, rfl⟩ | ⟨s, hs, rfl, rfl⟩)
      · exact ⟨e₁, Or.inl ⟨rfl, rfl⟩, Or.inl ⟨rfl, rfl⟩⟩
      · obtain ⟨s₁, hs₁, hmerged⟩ := h.flip.exists_of_mem hs
        obtain ⟨z, hz, hoffset, htarget⟩ := hmerged.target
        exact ⟨s₁.target, Or.inr ⟨s₁, hs₁, by rw [hmerged.old], rfl⟩, Or.inr ⟨z, hz, hoffset, htarget⟩⟩
    · rintro ⟨m, ⟨rfl, rfl⟩ | ⟨s₁, hs₁, rfl, rfl⟩, htarget⟩
      · exact Or.inl ⟨rfl, h₂.target_unique htarget (Or.inl ⟨rfl, rfl⟩)⟩
      · obtain ⟨s, hs, hmerged⟩ := h.exists_of_mem hs₁
        obtain ⟨z, hz, hoffset, hztarget⟩ := hmerged.target
        refine Or.inr ⟨s, hs, by rw [hmerged.old], ?_⟩
        exact h₂.target_unique (Or.inr ⟨z, hz, hoffset, hztarget⟩) htarget
  · constructor
    · rintro ⟨s, hs, rfl, rfl⟩
      obtain ⟨s₁, hs₁, hmerged⟩ := h.flip.exists_of_mem hs
      obtain ⟨y, hy, hyold, hposition, -⟩ := hmerged.instruction
      exact ⟨s₁.position, ⟨s₁, hs₁, by rw [hmerged.old], rfl⟩, ⟨y, hy, by rw [hyold], hposition⟩⟩
    · rintro ⟨m, ⟨s₁, hs₁, rfl, rfl⟩, s₂, hs₂, hoffset, rfl⟩
      obtain ⟨s, hs, hmerged⟩ := h.exists_of_mem hs₁
      obtain ⟨y, hy, hyold, hposition, -⟩ := hmerged.instruction
      obtain rfl := h₂.eq_of_offset hs₂ hy (by rw [hoffset, hyold])
      exact ⟨s, hs, by rw [hmerged.old], hposition.symm⟩

end Splice

/-! ## Method bodies -/

theorem Instruction.Moved.eq_of_plain {T : Nat → Nat → Prop} {old new : Nat} {opcode : UInt8} {operands : List UInt8}
    {i : Instruction} (h : Moved T old new (.plain opcode operands) i) : i = .plain opcode operands := by
  cases h
  rfl

theorem Instruction.IsStraight.eq_of_moved {i i' : Instruction} {T : Nat → Nat → Prop} {old new : Nat}
    (hi : i.IsStraight) (h : Moved T old new i i') : i' = i := by
  obtain ⟨opcode, operands, rfl⟩ := hi.plain
  exact h.eq_of_plain

namespace MethodBody

variable {insertions insertions₁ insertions₂ : List Insertion} {code code₁ code₂ : List UInt8} {ss₁ ss₂ : List Splice}
  {inner : Splice → List Instruction}

theorem TablesMoved.trans {pool : ConstantPool} {R S : Relocation} {body body₁ body₂ : MethodBody} (hR : R.Fits)
    (h : TablesMoved pool R body body₁) (h' : TablesMoved pool S body₁ body₂) :
    TablesMoved pool (R.comp S) body body₂ where
  maxStack := h'.maxStack.trans h.maxStack
  maxLocals := h'.maxLocals.trans h.maxLocals
  handlers := List.forall₂_trans_of (fun _ _ _ a b => a.trans b) h.handlers h'.handlers
  attributes := h.attributes.trans hR h'.attributes

/-- Code with straight code in it and other code behind that is code with both in it. -/
theorem Spliced.merge (h₁ : Spliced insertions₁ code code₁ ss₁) (h₂ : Spliced insertions₂ code₁ code₂ ss₂)
    (hinserted : ∀ s ∈ ss₁, s.inserted = Instruction.straightBytes (inner s))
    (hstraight : ∀ s ∈ ss₁, ∀ i ∈ inner s, i.IsStraight)
    (hjoins : ∀ s ∈ ss₁, Splice.Joins insertions insertions₂ (inner s) s)
    (hplaced : ∀ i ∈ insertions, ∃ s ∈ ss₁, s.old.offset = i.offset) :
    ∃ ss, Spliced insertions code code₂ ss ∧
      Splice.relocation ss code.length code₂.length =
        (Splice.relocation ss₁ code.length code₁.length).comp (Splice.relocation ss₂ code₁.length code₂.length) := by
  have hold := h₂.decoded
  rw [h₁.decodeAll_eq hinserted hstraight, Except.ok.injEq] at hold
  obtain ⟨ss, hchain, hss, hbytes, hmerged⟩ := h₁.chain.exists_merged h₂.chain hold.symm
    (fun s hs => (h₁.moved s hs).size) hinserted hstraight (fun x hx hx' => hx'.eq_of_moved (h₂.moved x hx)) hjoins
  have hrelocation := Splice.relocation_merged h₁.chain h₂.chain hmerged
  refine ⟨ss, ⟨by rw [hss, h₁.decoded], hchain, by rw [h₂.bytes, hbytes], fun s hs => ?_, fun i hi => ?_⟩, hrelocation⟩
  · obtain ⟨s₁, hs₁, hm⟩ := hmerged.flip.exists_of_mem hs
    obtain ⟨y, hy, hyold, hposition, hymoved⟩ := hm.instruction
    have hmoved := h₂.moved y hy
    rw [hyold, hposition, hymoved] at hmoved
    rw [hrelocation, hm.old]
    exact (h₁.moved s₁ hs₁).trans hmoved
  · obtain ⟨s₁, hs₁, hoffset⟩ := hplaced i hi
    obtain ⟨s, hs, hm⟩ := hmerged.exists_of_mem hs₁
    exact ⟨s, hs, by rw [hm.old, hoffset]⟩

theorem insert_withMaxStack {body body' : MethodBody} {pool : ConstantPool}
    (h : body.insert insertions pool = .ok body') (maxStack : UInt16) :
    { body with maxStack }.insert insertions pool = .ok { body' with maxStack } := by
  obtain ⟨ss, hspliced, hlength, -, hlocals, hhandlers, hattributes⟩ := insert_eq_ok_iff.1 h
  exact insert_eq_ok_iff.2 ⟨ss, hspliced, hlength, rfl, hlocals, hhandlers, hattributes⟩

theorem insert_mono {body body' : MethodBody} {pool pool' : ConstantPool}
    (hpool : ∀ i text, pool.utf8 i = .ok text → pool'.utf8 i = .ok text)
    (h : body.insert insertions pool = .ok body') : body.insert insertions pool' = .ok body' := by
  obtain ⟨ss, hspliced, hlength, hstack, hlocals, hhandlers, hattributes⟩ := insert_eq_ok_iff.1 h
  exact insert_eq_ok_iff.2 ⟨ss, hspliced, hlength, hstack, hlocals, hhandlers, hattributes.mono hpool⟩

/-- The second points are those of the same instructions in the new code, behind what is put in front of them. -/
structure SamePoints (points points₂ : List Nat) (is : List Instruction) (ss : List Splice) : Prop where
  position : ∀ s ∈ ss, s.position ∈ points₂ ↔ s.old.offset ∈ points
  inside : ∀ s ∈ ss, ∀ q ∈ Placed.layOut s.start (s.atPoints points is), q.offset ∉ points₂

/-- The returns of the new code are those of the old one. -/
theorem Spliced.mem_points_exit (h : Spliced insertions code code₁ ss₁)
    (hstraight : ∀ s ∈ ss₁, ∀ i ∈ inner s, i.IsStraight) {e o : Nat} :
    o ∈ InjectionMode.exit.points e (ss₁.flatMap fun s => s.placed (inner s)) ↔
      ∃ s ∈ ss₁, s.position = o ∧ s.old.instruction.isReturn = true := by
  simp only [InjectionMode.points, List.mem_map, List.mem_filter, List.mem_flatMap]
  constructor
  · rintro ⟨q, ⟨⟨s, hs, hq⟩, hreturn⟩, rfl⟩
    rcases List.mem_append.1 hq with hq | hq
    · rw [(Placed.layOut_bounds (hstraight s hs) hq).2.2.isReturn] at hreturn
      cases hreturn
    · obtain rfl := List.mem_singleton.1 hq
      rw [(h.moved s hs).isReturn] at hreturn
      exact ⟨s, hs, rfl, hreturn⟩
  · rintro ⟨s, hs, rfl, hreturn⟩
    refine ⟨⟨s.position, s.moved⟩, ⟨⟨s, hs, List.mem_append_right _ (List.mem_singleton_self _)⟩, ?_⟩, rfl⟩
    rw [(h.moved s hs).isReturn]
    exact hreturn

section
variable {body body₁ body₂ : MethodBody} {pool : ConstantPool} {is js : List Instruction} (his : ∀ i ∈ is, i.IsStraight)
include his

/-- The same straight code in front of some instructions and then other code behind it is both in front of them. -/
theorem insert_insert_at {points points₂ : List Nat} {captures : Bool} (hpoints : points.Nodup)
    (hpoints₂ : points₂.Nodup)
    (h₁ : body.insert (Insertion.at points (Instruction.straightBytes is) captures) pool = .ok body₁)
    (h₂ : body₁.insert (Insertion.at points₂ (Instruction.straightBytes js) captures) pool = .ok body₂)
    (hsame : ∀ ss, Spliced (Insertion.at points (Instruction.straightBytes is) captures) body.code body₁.code ss →
      SamePoints points points₂ is ss) :
    body.insert (Insertion.at points (Instruction.straightBytes (is ++ js)) captures) pool = .ok body₂ := by
  obtain ⟨ss₁, hspliced₁, hlength₁, htables₁⟩ := insert_eq_ok_iff.1 h₁
  obtain ⟨ss₂, hspliced₂, hlength₂, htables₂⟩ := insert_eq_ok_iff.1 h₂
  obtain ⟨hposition, hinside⟩ := hsame ss₁ hspliced₁
  have hjoins : ∀ s ∈ ss₁, Splice.Joins (Insertion.at points (Instruction.straightBytes (is ++ js)) captures)
      (Insertion.at points₂ (Instruction.straightBytes js) captures) (s.atPoints points is) s := by
    intro s hs
    obtain ⟨hinserted, hcaptures⟩ := hspliced₁.inserted_at hpoints hs
    refine ⟨fun q hq => ?_, ?_, ?_, ?_⟩
    · rw [Insertion.bytesAt_at hpoints₂, if_neg (hinside s hs q hq)]
    · rw [Insertion.bytesAt_at hpoints, Insertion.bytesAt_at hpoints₂, hinserted, Splice.atPoints]
      simp only [hposition s hs]
      split_ifs
      · exact Instruction.straightBytes_append is js
      · rfl
    · rw [Insertion.capturesAt_at hpoints, hcaptures]
    · rw [Insertion.capturesAt_at hpoints₂, hcaptures]
      simp only [hposition s hs]
  have hplaced : ∀ i ∈ Insertion.at points (Instruction.straightBytes (is ++ js)) captures,
      ∃ s ∈ ss₁, s.old.offset = i.offset := by
    intro i hi
    obtain ⟨o, ho, rfl⟩ := List.mem_map.1 hi
    exact hspliced₁.placed ⟨o, Instruction.straightBytes is, captures⟩ (List.mem_map.2 ⟨o, ho, rfl⟩)
  obtain ⟨ss, hspliced, hrelocation⟩ := hspliced₁.merge hspliced₂ (fun s hs => (hspliced₁.inserted_at hpoints hs).1)
    (fun s _ => forall_isStraight_atPoints his points s) hjoins hplaced
  refine insert_eq_ok_iff.2 ⟨ss, hspliced, hlength₂, ?_⟩
  rw [hrelocation]
  exact htables₁.trans (hspliced₁.chain.fits (Nat.lt_succ_of_le hlength₁)) htables₂

/-- In front of the first instruction, and then behind that. -/
theorem Spliced.samePoints_entry (h : Spliced (Insertion.at [0] (Instruction.straightBytes is) false) code code₁ ss₁) :
    SamePoints [0] [(Instruction.straightBytes is).length] is ss₁ := by
  have hfirst (s : Splice) (hs : s ∈ ss₁) (hoffset : s.old.offset = 0) :
      s.start = 0 ∧ s.position = (Instruction.straightBytes is).length := by
    have hinserted := (h.inserted_at (by simp) hs).1
    rw [Splice.atPoints, if_pos (by rw [hoffset]; exact List.mem_singleton_self 0)] at hinserted
    rcases h.chain.first with ⟨rfl, -⟩ | ⟨r, hr, hroffset, hrstart⟩
    · cases hs
    · obtain rfl := h.chain.eq_of_offset hr hs (hroffset.trans hoffset.symm)
      exact ⟨hrstart, by rw [Splice.position, hrstart, hinserted, Nat.zero_add]⟩
  refine ⟨fun s hs => ?_, fun s hs q hq => ?_⟩
  · simp only [List.mem_singleton]
    refine ⟨fun hposition => ?_, fun hoffset => (hfirst s hs hoffset).2⟩
    rcases h.chain.first with ⟨rfl, -⟩ | ⟨r, hr, hroffset, -⟩
    · cases hs
    · by_contra hne
      have hle := h.chain.stop_le_start hr hs (by omega)
      have hlt := r.position_lt_stop
      have hstart := s.start_le_target
      have htarget := s.target_le_position
      rw [(hfirst r hr hroffset).2] at hlt
      omega
  · rw [Splice.atPoints] at hq
    split_ifs at hq with hpoint
    · have hstart := (hfirst s hs (List.mem_singleton.1 hpoint)).1
      have hnext := (Placed.layOut_bounds his hq).2.1
      have hpos := Instruction.size_pos q.offset q.instruction
      rw [Placed.next, hstart, Nat.zero_add] at hnext
      rw [List.mem_singleton]
      omega
    · cases hq

/-- In front of every return, and then between that and the return. -/
theorem Spliced.samePoints_exit {points : List Nat} {e : Nat} (hpoints : points.Nodup)
    (hreturns : ∀ s ∈ ss₁, s.old.offset ∈ points ↔ s.old.instruction.isReturn = true)
    (h : Spliced (Insertion.at points (Instruction.straightBytes is) true) code code₁ ss₁) :
    SamePoints points (InjectionMode.exit.points e (ss₁.flatMap fun s => s.placed (s.atPoints points is))) is ss₁ := by
  have hstraight : ∀ s ∈ ss₁, ∀ i ∈ s.atPoints points is, i.IsStraight :=
    fun s _ => forall_isStraight_atPoints his points s
  refine ⟨fun s hs => ?_, fun s hs q hq hmem => ?_⟩
  · rw [h.mem_points_exit hstraight, hreturns s hs]
    constructor
    · rintro ⟨t, ht, hposition, hreturn⟩
      rwa [h.chain.eq_of_position ht hs hposition] at hreturn
    · exact fun hreturn => ⟨s, hs, rfl, hreturn⟩
  · rw [h.mem_points_exit hstraight] at hmem
    obtain ⟨t, ht, hposition, -⟩ := hmem
    obtain ⟨hlow, hhigh, -⟩ := Placed.layOut_bounds (hstraight s hs) hq
    have hpos := Instruction.size_pos q.offset q.instruction
    rw [← (h.inserted_at hpoints hs).1, Placed.next] at hhigh
    have hs' := s.position_lt_stop
    have ht' := t.position_lt_stop
    have hstart : t.start ≤ t.position := Nat.le_add_right _ _
    unfold Splice.position at hs' hposition hstart ht'
    rcases h.chain.eq_or_apart hs ht with rfl | ⟨-, hle⟩ | ⟨-, hle⟩
    · omega
    · omega
    · omega

/-- Calls that are put into a method and then more calls behind them are all of the calls put in at once. -/
theorem insert_insert {mode : InjectionMode} {entryLength : Nat} {ps ps₁ : List Placed} (hmode : mode ≠ .synthesize)
    (hps : Placed.decodeAll body.code = .ok ps) (hps₁ : Placed.decodeAll body₁.code = .ok ps₁)
    (hentry : mode = .entry → entryLength = (Instruction.straightBytes is).length)
    (h₁ : body.insert (mode.insertions 0 ps (Instruction.straightBytes is)) pool = .ok body₁)
    (h₂ : body₁.insert (mode.insertions entryLength ps₁ (Instruction.straightBytes js)) pool = .ok body₂) :
    body.insert (mode.insertions 0 ps (Instruction.straightBytes (is ++ js))) pool = .ok body₂ := by
  obtain ⟨ss₁, hspliced₁, -⟩ := insert_eq_ok_iff.1 h₁
  obtain ⟨ss₂, hspliced₂, -⟩ := insert_eq_ok_iff.1 h₂
  have hold {ss : List Splice} (hss : Spliced (mode.insertions 0 ps (Instruction.straightBytes is)) body.code body₁.code
      ss) : ss.map (·.old) = ps := by
    have hps' := hss.decoded
    rw [hps, Except.ok.injEq] at hps'
    exact hps'.symm
  have hps₁' := hspliced₂.decoded
  rw [hps₁, Except.ok.injEq] at hps₁'
  have hpoints := mode.nodup_points 0 hspliced₁.chain
  rw [hold hspliced₁] at hpoints
  have hpoints₂ := mode.nodup_points entryLength hspliced₂.chain
  rw [← hps₁'] at hpoints₂
  refine insert_insert_at his hpoints hpoints₂ h₁ h₂ fun ss hss => ?_
  cases mode with
  | entry =>
    obtain rfl := hentry rfl
    exact hss.samePoints_entry his
  | exit =>
    have hps₁'' := hss.decodeAll_eq (fun s hs => (hss.inserted_at hpoints hs).1)
      fun s _ => forall_isStraight_atPoints his _ s
    rw [hps₁, Except.ok.injEq] at hps₁''
    rw [hps₁'']
    exact hss.samePoints_exit his hpoints fun s hs => by rw [← hold hss, hss.chain.offset_mem_points_exit hs]
  | synthesize => exact absurd rfl hmode

/-- Straight code and a return behind it. -/
theorem decodeAll_straightBytes_return : Placed.decodeAll (Instruction.straightBytes is ++ [Opcode.returnVoid]) =
    .ok (Placed.layOut 0 is ++ [⟨(Instruction.straightBytes is).length, .plain Opcode.returnVoid []⟩]) := by
  refine Placed.decodeAll_eq_ok_iff.2 (Tiles.layOut_append his ?_)
  rw [Nat.zero_add]
  have hpad : (List.replicate (Instruction.padding (Instruction.straightBytes is).length) (0 : UInt8)).length =
      Instruction.padding (Instruction.straightBytes is).length := List.length_replicate
  exact .cons (i := .plain Opcode.returnVoid []) ⟨rfl, rfl, by decide, by decide, rfl⟩ hpad (.nil _)

theorem points_straightBytes_return (entryLength offset : Nat) :
    InjectionMode.exit.points entryLength (Placed.layOut 0 is ++ [⟨offset, .plain Opcode.returnVoid []⟩]) =
      [offset] := by
  have hnone : (Placed.layOut 0 is).filter (·.instruction.isReturn) = [] :=
    List.filter_eq_nil_iff.2 fun q hq => by simp [(Placed.layOut_bounds his hq).2.2.isReturn]
  show ((Placed.layOut 0 is ++ _).filter _).map _ = _
  rw [List.filter_append, hnone]
  rfl

/-- Bytes in front of the return behind straight code. -/
theorem Spliced.code_before_return {bytes : List UInt8}
    (h : Spliced (Insertion.at [(Instruction.straightBytes is).length] bytes true)
      (Instruction.straightBytes is ++ [Opcode.returnVoid]) code₁ ss₁) :
    code₁ = Instruction.straightBytes is ++ (bytes ++ [Opcode.returnVoid]) := by
  have hold := h.decoded
  rw [decodeAll_straightBytes_return his, Except.ok.injEq] at hold
  obtain ⟨xs, rest, rfl, hxs, hrest⟩ := List.map_eq_append_iff.1 hold.symm
  obtain ⟨y, rfl, hy⟩ := List.map_eq_singleton_iff.1 hrest
  have hbytes (o : Nat) : Insertion.bytesAt (Insertion.at [(Instruction.straightBytes is).length] bytes true) o =
      if o = (Instruction.straightBytes is).length then bytes else [] := by
    rw [Insertion.bytesAt_at (by simp)]
    simp only [List.mem_singleton]
  have hstay : ∀ x ∈ xs, x.moved = x.old.instruction := fun x hx =>
    (Placed.layOut_bounds his (hxs ▸ List.mem_map_of_mem hx)).2.2.eq_of_moved (h.moved x (List.mem_append_left _ hx))
  have hnone : ∀ q ∈ Placed.layOut 0 is,
      Insertion.bytesAt (Insertion.at [(Instruction.straightBytes is).length] bytes true) q.offset = [] := by
    intro q hq
    have hnext := (Placed.layOut_bounds his hq).2.1
    have hpos := Instruction.size_pos q.offset q.instruction
    unfold Placed.next at hnext
    rw [hbytes, if_neg (by omega)]
  have hy' := List.mem_append_right xs (List.mem_singleton_self y)
  have hinserted := (h.chain.inserted_eq hy').1
  have hmoved := h.moved y hy'
  rw [hbytes, hy, if_pos rfl] at hinserted
  rw [hy] at hmoved
  obtain ⟨m, m', hchain, -⟩ := h.chain.of_append
  obtain ⟨-, -, hxsbytes, -⟩ := hchain.of_layOut his hxs hstay hnone
  rw [h.bytes, List.flatMap_append, hxsbytes, List.flatMap_cons, List.flatMap_nil, Splice.bytes, hinserted,
    hmoved.eq_of_plain]
  simp [Instruction.spell]

/-- Calls in front of the return behind straight code. -/
theorem insert_before_return {entryLength : Nat} {ps : List Placed} {maxStack maxLocals : UInt16} {moved : MethodBody}
    {bytes : List UInt8}
    (hps : Placed.decodeAll (Instruction.straightBytes is ++ [Opcode.returnVoid]) = .ok ps)
    (h : (⟨maxStack, maxLocals, Instruction.straightBytes is ++ [Opcode.returnVoid], [], []⟩ : MethodBody).insert
      (InjectionMode.exit.insertions entryLength ps bytes) pool = .ok moved) :
    moved = ⟨maxStack, maxLocals, Instruction.straightBytes is ++ (bytes ++ [Opcode.returnVoid]), [], []⟩ := by
  rw [decodeAll_straightBytes_return his] at hps
  obtain rfl := Except.ok.inj hps
  obtain ⟨ss, hspliced, -, hstack, hlocals, hhandlers, hattributes⟩ := insert_eq_ok_iff.1 h
  have hinsertions : InjectionMode.exit.insertions entryLength _ bytes =
      Insertion.at [(Instruction.straightBytes is).length] bytes true :=
    congrArg (Insertion.at · bytes true) (points_straightBytes_return his entryLength _)
  rw [hinsertions] at hspliced
  have hcode := hspliced.code_before_return his
  obtain ⟨stack, locals, code, handlers, attributes⟩ := moved
  obtain rfl := List.forall₂_nil_left_iff.1 hhandlers
  cases hattributes
  cases hstack
  cases hlocals
  cases hcode
  rfl

/-- Behind the code that is put in front of the first instruction, that instruction stands. -/
theorem exists_offset_eq_length
    (h : body.insert (Insertion.at [0] (Instruction.straightBytes is) false) pool = .ok body₁) :
    ∃ ps₁, Placed.decodeAll body₁.code = .ok ps₁ ∧ ∃ p ∈ ps₁, p.offset = (Instruction.straightBytes is).length := by
  obtain ⟨ss, hspliced, -⟩ := insert_eq_ok_iff.1 h
  obtain ⟨s, hs, hoffset⟩ := hspliced.placed ⟨0, Instruction.straightBytes is, false⟩ (List.mem_singleton_self _)
  have hposition := ((hspliced.samePoints_entry his).position s hs).2 (hoffset ▸ List.mem_singleton_self _)
  refine ⟨_, hspliced.decodeAll_eq (fun s hs => (hspliced.inserted_at (by simp) hs).1)
    fun s _ => forall_isStraight_atPoints his _ s, ⟨s.position, s.moved⟩, ?_, List.mem_singleton.1 hposition⟩
  exact List.mem_flatMap.2 ⟨s, hs, List.mem_append_right _ (List.mem_singleton_self _)⟩

end

end MethodBody

end Registrar
