import Registrar.Proofs.Acceptance
import Registrar.Proofs.Guarded

/-!
# Insertions never fault

The checked insertion of `Guarded.insert` is the insertion, for every method body.

* `Guarded.offsetsFrom_zero`, `Guarded.placeFrom_eq`, `Guarded.emitFrom_eq` : the passes over the instructions take the
  slices that the decoded instructions are spelled in;
* `Guarded.relocateBytes_spell` : the operands of an instruction, the tables of a switch among them, lie in its slice;
* `Guarded.relocateVariable_eq`, `Guarded.emitFrames_eq` : no range ends in front of its start, and no frame comes in
  front of the one before it, because targets stay in order;
* `Guarded.insert_eq` : the outcomes are the same.
-/

namespace Registrar

namespace Guarded

/-! ## Reported errors -/

section
variable {α β : Type}

@[simp] theorem report_ok (a : α) : report (.ok a) = .ok a := rfl

theorem exists_of_report_eq_error {x : Except RelocationError α} {halt : Halt} (h : report x = .error halt) :
    ∃ cause, halt = .refused cause := by
  cases x with
  | ok a => cases h
  | error cause =>
    cases h
    exact ⟨cause, rfl⟩

theorem report_bind (x : Except RelocationError α) (f : α → Except RelocationError β) :
    report (x >>= f) = report x >>= fun a => report (f a) := by
  cases x <;> rfl

theorem bind_congr_of_ok {ε : Type} {x : Except ε α} {f g : α → Except ε β} (h : ∀ a, x = .ok a → f a = g a) :
    (x >>= f) = (x >>= g) := by
  cases x with
  | error e => rfl
  | ok a => exact h a rfl

end

/-! ## Offsets -/

theorem byteAt_append (pre : List UInt8) (b : UInt8) (rest : List UInt8) :
    byteAt (pre ++ b :: rest) pre.length = .ok b := by
  unfold byteAt
  rw [List.getElem?_append_right (Nat.le_refl _), Nat.sub_self]
  rfl

theorem minus_of_le {a b : Nat} (h : b ≤ a) : minus a b = .ok (a - b) := if_pos h

theorem byte_of_lt {n : Nat} (h : n < 256) : byte n = .ok (UInt8.ofNat n) := if_pos h

theorem lengthAt_eq {code : List UInt8} {offset : Nat} (h : offset < code.length) :
    lengthAt code offset = report ((Instruction.length? offset (code.drop offset)).mapError .instruction) := by
  unfold lengthAt byteAt
  rw [List.getElem?_eq_getElem h]
  rfl

theorem offsetsFrom_of_length {code : List UInt8} {offset length : Nat}
    (h : Instruction.length? offset (code.drop offset) = .ok length) (hpos : 0 < length)
    (hle : offset + length ≤ code.length) :
    offsetsFrom code offset = (offsetsFrom code (offset + length)).map (offset :: ·) := by
  have hlt : offset < code.length := by omega
  rw [offsetsFrom, if_pos hlt, lengthAt_eq hlt, h]
  simp only [Except.mapError, report_ok, if_neg (show ¬(length = 0 ∨ code.length < offset + length) by omega)]
  cases offsetsFrom code (offset + length) <;> rfl

theorem offsetsFrom_of_decode_eq_error {code : List UInt8} {offset : Nat} {error : InstructionError}
    (hlt : offset < code.length) (h : Instruction.decode offset (code.drop offset) = .error error) :
    offsetsFrom code offset = .error (.refused (.instruction error)) := by
  rw [offsetsFrom, if_pos hlt, lengthAt_eq hlt]
  unfold Instruction.decode at h
  cases hlength : Instruction.length? offset (code.drop offset) with
  | error e =>
    rw [hlength] at h
    cases h
    rfl
  | ok length =>
    rw [hlength] at h
    simp only [List.splitAt_eq] at h
    split_ifs at h with hfits
    cases h
    have hout : length = 0 ∨ code.length < offset + length := by
      rw [List.length_take, List.length_drop] at hfits
      omega
    simp only [Except.mapError, report_ok, if_pos hout]

/-- The offsets are those of the instructions that the code splits into. -/
theorem offsetsFrom_eq (code : List UInt8) (offset : Nat) (found : List Placed) (h : offset ≤ code.length) :
    (offsetsFrom code offset).map (found.reverse.map (·.offset) ++ ·) =
      report (((Placed.decodeOnto offset found (code.drop offset)).map (·.map (·.offset))).mapError .instruction) := by
  generalize hbytes : code.drop offset = bytes
  fun_induction Placed.decodeOnto offset found bytes with
  | case1 offset found bytes hempty =>
    rw [List.isEmpty_iff] at hempty
    subst hempty
    have hlength := List.drop_eq_nil_iff.1 hbytes
    rw [offsetsFrom, if_neg (by omega)]
    simp [Except.map, Except.mapError]
  | case2 offset found bytes hne error herror =>
    subst hbytes
    have hlt : offset < code.length := by simpa [List.isEmpty_iff] using hne
    rw [offsetsFrom_of_decode_eq_error hlt herror]
    rfl
  | case3 offset found bytes hne i rest hdecode ih =>
    obtain ⟨hi, pad, hp, rfl⟩ := Instruction.decode_eq_ok_iff.1 hdecode
    have hsize := Instruction.length_spell hp i
    have hpos := Instruction.size_pos offset i
    have hle : offset + i.size offset ≤ code.length := by
      have := congrArg List.length hbytes
      rw [List.length_drop, List.length_append, hsize] at this
      omega
    have hrest : code.drop (offset + i.size offset) = rest := by
      rw [← List.drop_drop, hbytes, List.drop_left' hsize]
    have hlength : Instruction.length? offset (code.drop offset) = .ok (i.size offset) := by
      rw [hbytes, Instruction.length?_spell hp hi]
    rw [offsetsFrom_of_length hlength hpos hle, ← ih hle hrest]
    cases offsetsFrom code (offset + i.size offset) with
    | error halt => rfl
    | ok offsets => simp [Except.map]

/-- Code that splits gives the offsets, other code gives the reason. -/
theorem offsetsFrom_zero (code : List UInt8) :
    offsetsFrom code 0 =
      report (((Placed.decodeAll code).map (·.map (·.offset))).mapError .instruction) := by
  have h := offsetsFrom_eq code 0 [] (Nat.zero_le _)
  rw [List.drop_zero] at h
  rw [Placed.decodeAll, ← h]
  cases offsetsFrom code 0 <;> simp [Except.map]

/-! ## Places -/

/-- What is known of a code at the offset of its splices: the bytes in front, and the instructions behind. -/
theorem next_eq {offset : Nat} {pre bytes : List UInt8} {ps : List Placed} (h : Tiles offset bytes ps)
    (hpre : pre.length = offset) : next (pre ++ bytes) (ps.map (·.offset)) = offset := by
  subst hpre
  cases h with
  | nil => simp [next]
  | cons => rfl

theorem relocatedLength_spell {pre pad : List UInt8} {i : Instruction} (hi : i.WellFormed) (rest : List UInt8)
    (new : Nat) :
    relocatedLength (pre ++ (i.spell pad ++ rest)) pre.length (i.size pre.length) new = .ok (i.size new) := by
  have hopcode : byteAt (pre ++ (i.spell pad ++ rest)) pre.length = .ok i.opcode := by
    cases i <;> exact byteAt_append pre _ _
  unfold relocatedLength
  rw [hopcode]
  cases i with
  | plain opcode operands =>
    have hkind : ¬(opcode = Opcode.tableSwitch ∨ opcode = Opcode.lookupSwitch) := by simp [hi.2.2.1, hi.2.2.2.1]
    exact if_neg hkind
  | branch opcode distance =>
    obtain ⟨-, ht, hl, -⟩ := Opcode.of_isBranch opcode hi
    exact if_neg (show ¬(opcode = Opcode.tableSwitch ∨ opcode = Opcode.lookupSwitch) by simp [ht, hl])
  | wideBranch opcode distance =>
    obtain ⟨-, ht, hl, -⟩ := Opcode.of_isWideBranch opcode hi
    exact if_neg (show ¬(opcode = Opcode.tableSwitch ∨ opcode = Opcode.lookupSwitch) by simp [ht, hl])
  | tableSwitch fallback low high ds =>
    show (minus _ _ >>= fun unpadded => _) = _
    rw [minus_of_le (by simp only [Instruction.size]; omega)]
    refine congrArg Except.ok ?_
    simp only [Instruction.size]
    omega
  | lookupSwitch fallback count cases =>
    show (minus _ _ >>= fun unpadded => _) = _
    rw [minus_of_le (by simp only [Instruction.size]; omega)]
    refine congrArg Except.ok ?_
    simp only [Instruction.size]
    omega

theorem tiles_cons {o : Nat} {bytes : List UInt8} {p : Placed} {ps : List Placed} (h : Tiles o bytes (p :: ps)) :
    p.instruction.WellFormed ∧ ∃ pad rest, pad.length = Instruction.padding p.offset ∧
      bytes = p.instruction.spell pad ++ rest ∧ Tiles p.next rest ps := by
  cases h with
  | cons hi hp hrest => exact ⟨hi, _, _, hp, rfl, hrest⟩

section
variable {insertions : List Insertion} {o n e e' : Nat} {ss : List Splice}

/-- The instructions are placed where the splices are. No padding is longer than its switch. -/
theorem placeFrom_eq (h : Splice.Chain insertions o n ss e e') {pre bytes : List UInt8}
    (ht : Tiles o bytes (ss.map (·.old))) (hpre : pre.length = o) :
    placeFrom (Insertion.groups insertions) (pre ++ bytes) n ((ss.map (·.old)).map (·.offset)) =
      .ok (ss.map Splice.slot, e') := by
  induction h generalizing pre bytes with
  | nil => rfl
  | @cons s ss _ _ hi hc _ ih =>
    replace ht : Tiles s.old.offset bytes (s.old :: ss.map (·.old)) := ht
    obtain ⟨hwell, pad, rest, hpad, rfl, hrest⟩ := tiles_cons ht
    have hlength : (pre ++ s.old.instruction.spell pad).length = s.old.next := by
      rw [List.length_append, Instruction.length_spell hpad, hpre]
      rfl
    have hnext := next_eq hrest hlength
    have hplaced := ih hrest hlength
    rw [List.append_assoc] at hnext hplaced
    have hsize : relocatedLength (pre ++ (s.old.instruction.spell pad ++ rest)) s.old.offset
        (s.old.instruction.size s.old.offset) s.position = .ok (s.old.instruction.size s.position) := by
      rw [← hpre]
      exact relocatedLength_spell hwell rest s.position
    have hposition : s.start + Insertion.groupLength (Insertion.group insertions s.old.offset) = s.position := by
      rw [Splice.position, hi, Insertion.bytesAt, Insertion.length_groupBytes]
    have hcaptures : (Insertion.group insertions s.old.offset).any (·.capturesTargets) = s.captures := hc.symm
    rw [List.map_cons, List.map_cons, placeFrom, hnext, minus_of_le (by unfold Placed.next; omega)]
    simp only [Insertion.getD_groups, hposition, hcaptures, bind, Except.bind]
    rw [show s.old.next - s.old.offset = s.old.instruction.size s.old.offset by unfold Placed.next; omega, hsize]
    simp only
    rw [show s.position + s.old.instruction.size s.position = s.stop from rfl, hplaced]
    rfl

end

/-! ## Instructions -/

theorem int32At_of_drop {bytes rest : List UInt8} {i : Nat} {v : Int32}
    (h : bytes.drop i = Instruction.bytesOfInt32 v ++ rest) :
    int32At bytes i = .ok v ∧ bytes.drop (i + 4) = rest := by
  constructor
  · rw [int32At, h, Instruction.int32?_bytesOfInt32]
  · rw [← List.drop_drop, h]
    rfl

section
variable {layout : Layout} {old new : Nat} {bytes rest : List UInt8} {i : Nat}

theorem jumpAt_of_drop {v : Int32} (h : bytes.drop i = Instruction.bytesOfInt32 v ++ rest) :
    jumpAt layout old new bytes i = report (Instruction.relocateDistance32 layout old new v) := by
  rw [jumpAt, (int32At_of_drop h).1]
  unfold Instruction.relocateDistance32
  rw [report_bind]
  rfl

/-- The reads of a table stay inside the table. -/
theorem jumpsAt_of_drop : ∀ (ds : List Int32) (i : Nat), bytes.drop i = ds.flatMap Instruction.bytesOfInt32 ++ rest →
    jumpsAt layout old new bytes ds.length i =
      report (ds.mapM (Instruction.relocateDistance32 layout old new))
  | [], i, _ => rfl
  | d :: ds, i, h => by
    rw [List.flatMap_cons, List.append_assoc] at h
    rw [List.length_cons, jumpsAt, jumpAt_of_drop h, jumpsAt_of_drop ds (i + 4) (int32At_of_drop h).2, List.mapM_cons,
      report_bind]
    refine bind_congr_of_ok fun jump _ => ?_
    rw [report_bind]
    rfl

theorem casesAt_of_drop : ∀ (cs : List (Int32 × Int32)) (i : Nat),
    bytes.drop i = (Instruction.unpair cs).flatMap Instruction.bytesOfInt32 ++ rest →
    casesAt layout old new bytes cs.length i =
      report (cs.mapM fun c => do return (c.1, ← Instruction.relocateDistance32 layout old new c.2))
  | [], i, _ => rfl
  | (key, d) :: cs, i, h => by
    have hunpair : Instruction.unpair ((key, d) :: cs) = key :: d :: Instruction.unpair cs := rfl
    rw [hunpair, List.flatMap_cons, List.flatMap_cons, List.append_assoc, List.append_assoc] at h
    obtain ⟨hkey, h⟩ := int32At_of_drop h
    have hrest := (int32At_of_drop h).2
    rw [List.length_cons, casesAt, hkey, jumpAt_of_drop h, casesAt_of_drop cs (i + 8) hrest, List.mapM_cons]
    simp only [report_bind, bind_assoc]
    show (report _ >>= fun jump => _) = _
    refine bind_congr_of_ok fun jump _ => ?_
    rfl

end

theorem int16At_bytes16 (opcode : UInt8) (d : Int16) : int16At (opcode :: bytes16 d.toUInt16) 1 = .ok d := by
  have h := Decoder.u16_encode d.toUInt16 []
  simp only [bytes16, List.cons_append, List.nil_append, Decoder.u16, Except.ok.injEq, Prod.mk.injEq, and_true] at h
  simp only [int16At, bytes16, List.drop_succ_cons, List.drop_zero, h, Int16.toInt16_toUInt16]

theorem natural_natCast {v : Int} {n : Nat} (h : v = n) : natural v = .ok n := by
  rw [natural, if_pos (by omega), h, Int.toNat_natCast]

section
variable {layout : Layout} {old new : Nat} {pad : List UInt8} {i : Instruction}

/-- The bytes of an instruction become the bytes of the relocated one. No operand is read behind its end. -/
theorem relocateBytes_spell (hi : i.WellFormed) (hp : pad.length = Instruction.padding old) :
    relocateBytes layout old new (i.spell pad) = report ((i.relocate layout old new).map (·.encode new)) := by
  have hopcode : byteAt (i.spell pad) 0 = .ok i.opcode := by cases i <;> rfl
  unfold relocateBytes
  rw [hopcode]
  show (if Opcode.isBranch i.opcode then _ else _) = _
  cases i with
  | plain opcode operands =>
    obtain ⟨hb, hw, ht, hl, -⟩ := hi
    simp only [Instruction.opcode, hb, hw, ht, hl, if_false, Bool.false_eq_true]
    rfl
  | branch opcode d =>
    have hb : Opcode.isBranch opcode = true := hi
    simp only [Instruction.opcode, hb, if_true, Instruction.spell, int16At_bytes16, relative, Instruction.relocate]
    show (report _ >>= fun moved => _) = _
    cases Instruction.relocateDistance layout old new d.toInt with
    | error e => rfl
    | ok m =>
      show (if m < -0x8000 then _ else _) = report (Except.map _ (if m < -0x8000 then _ else _))
      split_ifs <;> rfl
  | wideBranch opcode d =>
    have hb := (Opcode.of_isWideBranch opcode hi).2.2.2.2
    have hw : Opcode.isWideBranch opcode = true := hi
    have hread : int32At (opcode :: Instruction.bytesOfInt32 d) 1 = .ok d :=
      (int32At_of_drop (List.append_nil _).symm).1
    simp only [Instruction.opcode, hb, hw, if_true, if_false, Bool.false_eq_true, Instruction.spell, hread, relative,
      Instruction.relocate]
    show (report _ >>= fun moved => _) = _
    cases Instruction.relocateDistance layout old new d.toInt with
    | error e => rfl
    | ok m =>
      show (if m < -0x80000000 then _ else _) = report (Except.map _ (if m < -0x80000000 then _ else _))
      split_ifs <;> rfl
  | tableSwitch fallback low high ds =>
    have hfallback : ((Instruction.tableSwitch fallback low high ds).spell pad).drop (1 + Instruction.padding old) =
        Instruction.bytesOfInt32 fallback ++ (Instruction.bytesOfInt32 low ++ (Instruction.bytesOfInt32 high ++
          (ds.flatMap Instruction.bytesOfInt32 ++ []))) := by
      rw [Instruction.spell, Nat.add_comm, List.drop_succ_cons, ← hp, List.drop_left]
      simp
    have hlow := (int32At_of_drop hfallback).2
    have hhigh := (int32At_of_drop hlow).2
    have hds := (int32At_of_drop hhigh).2
    show (jumpAt _ _ _ _ _ >>= fun moved => _) = _
    rw [jumpAt_of_drop hfallback, Instruction.relocate]
    cases Instruction.relocateDistance32 layout old new fallback with
    | error e => rfl
    | ok moved =>
      show (int32At _ _ >>= fun low => _) = _
      rw [(int32At_of_drop hlow).1]
      show (int32At _ _ >>= fun high => _) = _
      rw [(int32At_of_drop hhigh).1]
      show (natural _ >>= fun count => _) = _
      rw [natural_natCast hi.1.symm]
      show (jumpsAt _ _ _ _ _ _ >>= fun distances => _) = report (Except.map _ (List.mapM _ ds >>= fun distances => _))
      rw [jumpsAt_of_drop ds _ hds]
      cases ds.mapM (Instruction.relocateDistance32 layout old new) <;> rfl
  | lookupSwitch fallback count cases =>
    have hfallback : ((Instruction.lookupSwitch fallback count cases).spell pad).drop (1 + Instruction.padding old) =
        Instruction.bytesOfInt32 fallback ++ (Instruction.bytesOfInt32 count ++
          ((Instruction.unpair cases).flatMap Instruction.bytesOfInt32 ++ [])) := by
      rw [Instruction.spell, Nat.add_comm, List.drop_succ_cons, ← hp, List.drop_left]
      simp
    have hcount := (int32At_of_drop hfallback).2
    have hcases := (int32At_of_drop hcount).2
    show (jumpAt _ _ _ _ _ >>= fun moved => _) = _
    rw [jumpAt_of_drop hfallback, Instruction.relocate]
    cases Instruction.relocateDistance32 layout old new fallback with
    | error e => rfl
    | ok moved =>
      show (int32At _ _ >>= fun count => _) = _
      rw [(int32At_of_drop hcount).1]
      show (natural _ >>= fun pairs => _) = _
      rw [natural_natCast hi]
      show (casesAt _ _ _ _ _ _ >>= fun cases => _) = report (Except.map _ (List.mapM _ cases >>= fun cases => _))
      rw [casesAt_of_drop cases _ hcases]
      generalize (cases.mapM fun c => do
        return (c.1, ← Instruction.relocateDistance32 layout old new c.2) : Except RelocationError _) = moves
      cases moves <;> rfl

end

section
variable {insertions : List Insertion} {o n e e' : Nat} {ss : List Splice} {layout : Layout}

/-- The moved instructions are emitted where the splices are, each from the slice that holds it. -/
theorem emitFrom_eq (hfits : layout.relocation.Fits) (h : Splice.Chain insertions o n ss e e') (hlt : e' < 0x10000)
    {pre bytes output : List UInt8} (ht : Tiles o bytes (ss.map (·.old))) (hpre : pre.length = o)
    (houtput : output.length = n) :
    emitFrom (Insertion.groups insertions) layout (pre ++ bytes) output ((ss.map (·.old)).map (·.offset)) =
      report ((ss.mapM fun s => MethodBody.relocatePlaced (Insertion.groups insertions) layout s.old s.slot).map
        (output ++ ·.flatten)) := by
  induction h generalizing pre bytes output with
  | nil => simp [emitFrom, pure, Except.pure, Except.map]
  | @cons s ss _ _ hi hc hchain ih =>
    replace ht : Tiles s.old.offset bytes (s.old :: ss.map (·.old)) := ht
    obtain ⟨hwell, pad, rest, hpad, rfl, hrest⟩ := tiles_cons ht
    have hlength : (pre ++ s.old.instruction.spell pad).length = s.old.next := by
      rw [List.length_append, Instruction.length_spell hpad, hpre]
      rfl
    have hnext := next_eq hrest hlength
    have hslice : slice (pre ++ (s.old.instruction.spell pad ++ rest)) s.old.offset s.old.next =
        .ok (s.old.instruction.spell pad) := by
      rw [slice, ← List.append_assoc, if_pos, List.take_left' hlength, List.drop_left' hpre]
      rw [List.length_append, hlength]
      unfold Placed.next
      omega
    have hinserted : Insertion.groupBytes (Insertion.group insertions s.old.offset) = s.inserted := hi.symm
    have hposition : (output ++ s.inserted).length = s.position := by
      rw [List.length_append, houtput]
      rfl
    have hpositionLt : s.position < 0x10000 := by
      have := hchain.le.2
      have := s.position_lt_stop
      omega
    rw [List.append_assoc] at hnext
    rw [List.map_cons, List.map_cons, emitFrom, hnext, Insertion.getD_groups, hinserted, hposition, hslice,
      List.mapM_cons]
    show (inside _ (relocateBytes _ _ _ _) >>= fun moved => _) = _
    rw [relocateBytes_spell hwell hpad, MethodBody.relocatePlaced, Insertion.getD_groups, hinserted,
      show s.slot.position = s.position from rfl]
    cases hmoved : s.old.instruction.relocate layout s.old.offset s.position with
    | error cause => rfl
    | ok moved =>
      have hsize := ((Instruction.relocate_eq_ok_iff hfits hpositionLt).1 hmoved).size s.position
      have hstop : (output ++ s.inserted ++ moved.encode s.position).length = s.stop := by
        rw [List.length_append, hposition, Instruction.length_encode, hsize]
        rfl
      have hmore := ih hlt hrest hlength hstop
      rw [List.append_assoc pre] at hmore
      show emitFrom _ _ _ (output ++ s.inserted ++ moved.encode s.position) _ = _
      rw [hmore]
      cases ss.mapM fun s => MethodBody.relocatePlaced (Insertion.groups insertions) layout s.old s.slot with
      | error cause => rfl
      | ok parts =>
        show Except.ok _ = Except.ok _
        simp

end

/-! ## Tables -/

section
variable {α : Type} {decode : Decoder α} {move : α → Guarded (List UInt8)}
  {move' : α → Except RelocationError (List UInt8)}

theorem entries_eq (hmove : ∀ e, move e = report (move' e)) :
    ∀ (n : Nat) (found : List (List UInt8)) (input : List UInt8),
      (entries decode move n input).map (found.reverse.flatten ++ ·) =
        report (OffsetTable.relocateOnto decode move' n found input)
  | 0, found, input => by simp [entries, OffsetTable.relocateOnto, Except.map]
  | n + 1, found, input => by
    rw [entries, OffsetTable.relocateOnto, read]
    cases decode input with
    | error e => rfl
    | ok result =>
      obtain ⟨entry, rest⟩ := result
      show Except.map _ (move entry >>= fun bytes => _) = _
      rw [hmove]
      cases hbytes : move' entry with
      | error e => simp only [hbytes]; rfl
      | ok bytes =>
        simp only [hbytes]
        rw [← entries_eq hmove n (bytes :: found) rest]
        show Except.map _ (entries decode move n rest >>= fun more => _) = _
        cases entries decode move n rest with
        | error halt => rfl
        | ok more => exact congrArg Except.ok (by simp)

theorem table_eq (hmove : ∀ e, move e = report (move' e)) (content : List UInt8) :
    table decode move content = report (OffsetTable.relocate decode move' content) := by
  rw [table, OffsetTable.relocate, read]
  cases Decoder.u16 content with
  | error e => rfl
  | ok result =>
    obtain ⟨count, rest⟩ := result
    have hentries : (entries decode move count.toNat rest).map (fun bytes => [] ++ bytes) =
        report (OffsetTable.relocateOnto decode move' count.toNat [] rest) := entries_eq hmove count.toNat [] rest
    show (entries decode move count.toNat rest >>= fun bytes => _) = report _
    dsimp only
    cases hfound : entries decode move count.toNat rest with
    | error halt =>
      rw [hfound] at hentries
      cases hbytes : OffsetTable.relocateOnto decode move' count.toNat [] rest with
      | error e =>
        rw [hbytes] at hentries
        exact hentries
      | ok bytes =>
        rw [hbytes] at hentries
        cases hentries
    | ok found =>
      rw [hfound] at hentries
      cases hbytes : OffsetTable.relocateOnto decode move' count.toNat [] rest with
      | error e =>
        rw [hbytes] at hentries
        cases hentries
      | ok bytes =>
        rw [hbytes] at hentries
        cases hentries
        rfl

end

section
variable {layout : Layout}

/-- The new end of a range is not in front of its new start. -/
theorem relocateVariable_eq (hfits : layout.relocation.Fits) (v : LocalVariable) :
    relocateVariable layout v = report ((v.relocate layout).map LocalVariable.encode) := by
  unfold relocateVariable LocalVariable.relocate
  cases hstart : layout.target v.start.toNat with
  | error e => rfl
  | ok start =>
    cases hstop : layout.target (v.start.toNat + v.length.toNat) with
    | error e => rfl
    | ok stop =>
      have hle : start ≤ stop := hfits.target_mono hstart hstop (Nat.le_add_right _ _)
      show (report (Layout.narrow start) >>= fun start16 => minus stop start >>= fun length => _) = _
      rw [minus_of_le hle]
      cases hnarrow : Layout.narrow start with
      | error e => simp only [hnarrow, bind, Except.bind]; rfl
      | ok start16 =>
        cases hlength : Layout.narrow (stop - start) with
        | error e => simp only [hnarrow, hlength, bind, Except.bind]; rfl
        | ok length16 => simp only [hnarrow, hlength, bind, Except.bind]; rfl

theorem read_bind {α β : Type} (d : Decoder α) (f : α → Decoder β) (input : List UInt8) :
    read (d >>= f) input = read d input >>= fun r => read (f r.1) r.2 := by
  have hbind : (d >>= f) input = d input >>= fun r => f r.1 r.2 := rfl
  rw [read, read, hbind]
  cases d input <;> rfl

theorem frame_eq (kind : UInt8) (input : List UInt8) : frame kind input = read (FrameBody.decode kind) input := by
  unfold frame FrameBody.decode
  split_ifs with h63 h127 h246 h247 h250 h251 h254
  · rfl
  · rw [minus_of_le (by simp only [UInt8.le_iff_toNat_le, UInt8.reduceToNat] at h63; omega), read_bind]
    rfl
  · rfl
  · rw [read_bind]
    refine bind_congr_of_ok fun distance _ => ?_
    rw [read_bind]
    rfl
  · rw [read_bind]
    refine bind_congr_of_ok fun distance _ => ?_
    have hle : kind.toNat ≤ 251 := by
      simp only [UInt8.le_iff_toNat_le, UInt8.reduceToNat] at h250
      omega
    have hcount : UInt8.ofNat (251 - kind.toNat) = 251 - kind := by
      rw [UInt8.ofNat_sub hle, UInt8.ofNat_toNat]
      rfl
    show (minus 251 kind.toNat >>= fun count => _) = _
    rw [minus_of_le hle]
    show Except.ok ((distance.1.toNat, FrameBody.chop (UInt8.ofNat (251 - kind.toNat))), distance.2) = _
    rw [hcount]
    rfl
  · rw [read_bind]
    rfl
  · rw [read_bind]
    refine bind_congr_of_ok fun distance _ => ?_
    have hle : 251 ≤ kind.toNat := by
      simp only [UInt8.le_iff_toNat_le, UInt8.reduceToNat, ← UInt8.toNat_inj] at h250 h251
      omega
    rw [read_bind]
    simp only [minus_of_le hle]
    generalize kind.toNat - 251 = count
    rfl
  · rw [read_bind]
    refine bind_congr_of_ok fun distance _ => ?_
    rw [read_bind]
    refine bind_congr_of_ok fun locals _ => ?_
    rw [read_bind]
    rfl

/-- Frames are read one after the other. -/
theorem frames_eq : ∀ (n : Nat) (input : List UInt8),
    frames n input = (read (Decoder.times n StackMap.decodeFrame) input).map (·.1)
  | 0, input => rfl
  | n + 1, input => by
    have hfirst : read StackMap.decodeFrame input =
        read Decoder.u8 input >>= fun kind => read (FrameBody.decode kind.1) kind.2 := read_bind _ _ _
    rw [Decoder.times_succ, frames, read_bind, hfirst]
    cases read Decoder.u8 input with
    | error halt => rfl
    | ok kind =>
      show (frame kind.1 kind.2 >>= fun first => _) = _
      rw [frame_eq]
      show _ = Except.map _ (read (FrameBody.decode kind.1) kind.2 >>= fun first => _)
      cases read (FrameBody.decode kind.1) kind.2 with
      | error halt => rfl
      | ok first =>
        show (frames n first.2 >>= fun more => _) = Except.map _ (read _ first.2)
        rw [frames_eq n, read_bind]
        cases read (Decoder.times n StackMap.decodeFrame) first.2 <;> rfl

/-- The sums and differences in the first byte of a frame fit it. -/
theorem frameBytes_eq (layout : Layout) (distance : Nat) {b : FrameBody} (hb : b.WellFormed) :
    frameBytes layout distance b = report (b.relocate layout distance) := by
  unfold frameBytes
  cases hwide : Layout.narrow distance with
  | error e => simp only [FrameBody.relocate, hwide]; rfl
  | ok wide =>
    cases b with
    | same => rfl
    | sameWithItem item =>
      simp only [FrameBody.relocate, hwide]
      split_ifs with hcompact
      · rw [byte_of_lt (by omega)]
        cases item.relocate layout <;> rfl
      · cases item.relocate layout <;> rfl
    | chop count =>
      obtain ⟨kind, h248, h250, rfl⟩ := hb
      have hcount : (251 - kind).toNat = 251 - kind.toNat := by
        rw [UInt8.toNat_sub_of_le]
        · rfl
        · rw [UInt8.le_iff_toNat_le]
          exact Nat.le_succ_of_le h250
      simp only [FrameBody.relocate, hwide]
      rw [hcount, minus_of_le (Nat.sub_le _ _)]
      refine congrArg (fun count => Except.ok (count :: bytes16 wide)) ?_
      rw [Nat.sub_sub_self (by omega), UInt8.ofNat_toNat]
      grind
    | append locals =>
      simp only [FrameBody.relocate, hwide]
      rw [byte_of_lt (by have := hb.2.1; omega)]
      cases FrameBody.relocateTypes layout locals <;> rfl
    | full locals stack => rfl

variable {layout : Layout}

/-- Frames are stored one after the other. Each is behind the one before it, so that it has a distance. -/
theorem emitFrames_eq (hfits : layout.relocation.Fits) : ∀ (fs : List Frame) {previous previous' : Option Nat}
    (found : List (List UInt8)), StackMap.Ascends previous fs →
    (∀ p' ∈ previous', ∃ p ∈ previous, layout.relocation.target p p') → (∀ f ∈ fs, f.body.WellFormed) →
    (emitFrames layout previous' fs).map (found.reverse.flatten ++ ·) =
      report (StackMap.encodeOnto layout previous' found fs)
  | [], _, _, found, _, _, _ => by simp [emitFrames, StackMap.encodeOnto, Except.map]
  | f :: fs, previous, previous', found, hasc, hprevious, hwell => by
    rw [List.forall_mem_cons] at hwell
    rw [emitFrames, StackMap.encodeOnto]
    cases htarget : layout.target f.offset with
    | error e => rfl
    | ok offset =>
      have hdistance : distanceAfter previous' offset = report (StackMap.distanceAfter previous' offset) := by
        cases previous' with
        | none => rfl
        | some p' =>
          obtain ⟨p, hp, hp'⟩ := hprevious p' rfl
          have hlt := hfits.target_strictMono hp' htarget (hasc.1 p hp)
          rw [distanceAfter, StackMap.distanceAfter, if_pos (Nat.succ_le_of_lt hlt)]
          exact minus_of_le (Nat.succ_le_of_lt hlt)
      show Except.map _ (distanceAfter previous' offset >>= fun distance => _) = _
      rw [hdistance]
      cases hd : StackMap.distanceAfter previous' offset with
      | error e =>
        simp only [hd]
        rfl
      | ok distance =>
        show Except.map _ (frameBytes layout distance f.body >>= fun bytes => _) = _
        rw [frameBytes_eq layout distance hwell.1]
        cases hbytes : f.body.relocate layout distance with
        | error e =>
          simp only [hd, hbytes]
          rfl
        | ok bytes =>
          have hlast : ∀ p' ∈ some offset, ∃ p ∈ some f.offset, layout.relocation.target p p' := by
            rintro _ ⟨⟩
            exact ⟨f.offset, rfl, htarget⟩
          have hmore := emitFrames_eq hfits fs (bytes :: found) hasc.2 hlast hwell.2
          simp only [hd, hbytes]
          rw [← hmore]
          show Except.map _ (emitFrames layout (some offset) fs >>= fun more => _) = _
          cases emitFrames layout (some offset) fs with
          | error halt => rfl
          | ok more => exact congrArg Except.ok (by simp)

/-- A stack map is its number of frames, then the frames. -/
theorem read_stackMap (content : List UInt8) : report ((StackMap.decode content).mapError .format) =
    read Decoder.u16 content >>= fun count => (frames count.1.toNat count.2).map (StackMap.place none [] ·) := by
  have hcounted : StackMap.decode content = (Decoder.counted StackMap.decodeFrame content).map
      fun r => StackMap.place none [] r.1 := by
    rw [StackMap.decode]
    cases Decoder.counted StackMap.decodeFrame content <;> rfl
  have hread : report (((Decoder.counted StackMap.decodeFrame content).map
      fun r => StackMap.place none [] r.1).mapError .format) =
        (read (Decoder.counted StackMap.decodeFrame) content).map fun r => StackMap.place none [] r.1 := by
    rw [read]
    cases Decoder.counted StackMap.decodeFrame content <;> rfl
  rw [hcounted, hread, Decoder.counted, read_bind]
  cases read Decoder.u16 content with
  | error halt => rfl
  | ok count =>
    show Except.map _ (read (Decoder.times count.1.toNat StackMap.decodeFrame) count.2) = Except.map _ _
    rw [frames_eq]
    cases read (Decoder.times count.1.toNat StackMap.decodeFrame) count.2 <;> rfl

theorem length_of_frames {n : Nat} {input : List UInt8} {stored : List (Nat × FrameBody)}
    (h : frames n input = .ok stored) : stored.length = n := by
  rw [frames_eq, Except.map_eq_ok_iff] at h
  obtain ⟨result, hresult, rfl⟩ := h
  rw [read, report, Except.mapError_eq_ok_iff, Except.mapError_eq_ok_iff] at hresult
  exact Decoder.length_of_times hresult

theorem stackMap_eq (hfits : layout.relocation.Fits) (content : List UInt8) :
    stackMap layout content = report (StackMap.relocate layout content) := by
  have hrelocate : report (StackMap.relocate layout content) =
      report ((StackMap.decode content).mapError .format) >>= fun fs =>
        report (StackMap.encodeOnto layout none [] fs) >>= fun bytes => .ok (count16 fs.length ++ bytes) := by
    rw [StackMap.relocate]
    cases StackMap.decode content with
    | error e => rfl
    | ok fs =>
      show report _ = report (StackMap.encodeOnto layout none [] fs) >>= fun _ => _
      dsimp only
      cases StackMap.encodeOnto layout none [] fs <;> rfl
  rw [hrelocate, read_stackMap, stackMap, bind_assoc]
  refine bind_congr_of_ok fun result hcount => ?_
  obtain ⟨count, rest⟩ := result
  cases hstored : frames count.toNat rest with
  | error halt =>
    simp only [hstored]
    rfl
  | ok stored =>
    have hdecode : StackMap.decode content = .ok (StackMap.place none [] stored) := by
      have hread := read_stackMap content
      rw [hcount] at hread
      replace hread : _ = (frames count.toNat rest).map (StackMap.place none [] ·) := hread
      rw [hstored] at hread
      exact Except.mapError_eq_ok_iff.1 (Except.mapError_eq_ok_iff.1 hread)
    have hplace : StackMap.place none [] stored = StackMap.offsets none stored := StackMap.place_eq none [] stored
    have hlength : (StackMap.place none [] stored).length = count.toNat := by
      rw [hplace, StackMap.length_offsets, length_of_frames hstored]
    have hasc : StackMap.Ascends none (StackMap.place none [] stored) := by
      rw [hplace]
      exact StackMap.ascends_offsets none stored
    have hnone : ∀ p' ∈ (none : Option Nat), ∃ p ∈ (none : Option Nat), layout.relocation.target p p' := by
      rintro _ ⟨⟩
    have hframes := emitFrames_eq hfits _ [] hasc hnone (StackMap.wellFormed_of_decode hdecode).2
    simp only [hstored]
    show (emitFrames layout none (StackMap.place none [] stored) >>= fun bytes => .ok (bytes16 count ++ bytes)) =
      report (StackMap.encodeOnto layout none [] (StackMap.place none [] stored)) >>= fun _ => _
    rw [← hframes, hlength, Decoder.count16_toNat]
    cases emitFrames layout none (StackMap.place none [] stored) <;> rfl

theorem inside_report {α : Type} (heading : RelocationError → RelocationError) (x : Except RelocationError α) :
    inside heading (report x) = report (x.mapError heading) := by
  cases x <;> rfl

theorem relocateAttribute_eq {pool : ConstantPool} (hfits : layout.relocation.Fits) (a : Attribute) :
    relocateAttribute pool layout a = report (MethodBody.relocateAttribute pool layout a) := by
  have hvariables : ∀ content, table LocalVariable.decode (relocateVariable layout) content =
      report (OffsetTable.relocateLocalVariables layout content) := table_eq (relocateVariable_eq hfits)
  have hmoved (x : Except RelocationError (List UInt8)) :
      (report x >>= fun content => pure (some { a with content })) =
        report (x.map fun content => some { a with content }) := by
    cases x <;> rfl
  unfold relocateAttribute MethodBody.relocateAttribute
  cases pool.utf8 a.name with
  | error e => rfl
  | ok name =>
    show (if name = "LineNumberTable" then _ else _) = report (if name = "LineNumberTable" then _ else _)
    split_ifs
    · exact hmoved _
    · rw [hvariables]
      exact hmoved _
    · rw [stackMap_eq hfits, inside_report]
      exact hmoved _
    · rfl
    · rfl

end

/-! ## Bodies -/

theorem mapM_report {α β : Type} {f : α → Guarded β} {g : α → Except RelocationError β}
    (h : ∀ a, f a = report (g a)) : ∀ l : List α, l.mapM f = report (l.mapM g)
  | [] => rfl
  | a :: l => by
    rw [List.mapM_cons, List.mapM_cons, h, report_bind]
    refine bind_congr_of_ok fun b _ => ?_
    rw [mapM_report h l, report_bind]
    rfl

theorem relocateCode_eq {groups : InsertionGroups} {ss : List Splice} {layout : Layout}
    (h : layout.slots = ss.map Splice.slot) : MethodBody.relocateCode groups layout (ss.map (·.old)) =
      (ss.mapM fun s => MethodBody.relocatePlaced groups layout s.old s.slot).map (·.flatten) := by
  unfold MethodBody.relocateCode
  rw [h, List.zip_map', List.mapM_map]
  show ((ss.mapM fun s => MethodBody.relocatePlaced groups layout s.old s.slot) >>= fun parts => pure parts.flatten) = _
  cases ss.mapM fun s => MethodBody.relocatePlaced groups layout s.old s.slot <;> rfl

section
variable {body : MethodBody} {insertions : List Insertion} {pool : ConstantPool} {ss : List Splice} {e' : Nat}

/-- The parts are moved as they are by the insertion, and the code comes out as long as it was laid out. -/
theorem moveParts_eq (h : Splice.Chain insertions 0 0 ss body.code.length e')
    (ht : Tiles 0 body.code (ss.map (·.old))) (hlt : e' < 0x10000) :
    let groups := Insertion.groups insertions
    let layout := Layout.of groups body.code.length (ss.map (·.old))
    moveParts groups layout ((ss.map (·.old)).map (·.offset)) body pool = report (do
      let moved ← MethodBody.relocateCode groups layout (ss.map (·.old))
      let handlers ← body.handlers.mapM (·.relocate layout)
      let attributes ← body.attributes.mapM (MethodBody.relocateAttribute pool layout)
      return { body with code := moved, handlers, attributes := attributes.filterMap id }) := by
  intro groups layout
  have hfits : layout.relocation.Fits := by
    rw [h.relocation_layout]
    exact h.fits hlt
  have hslots : layout.slots = ss.map Splice.slot := by simp only [layout, groups, h.layout]
  have hlength : layout.newLength = e' := by simp only [layout, groups, h.layout]
  have hpre : ([] : List UInt8).length = 0 := rfl
  have hemit : emitFrom groups layout body.code [] ((ss.map (·.old)).map (·.offset)) =
      report (MethodBody.relocateCode groups layout (ss.map (·.old))) := by
    rw [relocateCode_eq hslots]
    exact emitFrom_eq hfits h hlt ht hpre hpre
  unfold moveParts
  rw [hemit, report_bind]
  refine bind_congr_of_ok fun output houtput => ?_
  have houtput := MethodBody.length_of_relocateCode h hlt (Except.mapError_eq_ok_iff.1 houtput)
  rw [if_neg (by rw [hlength, houtput]; exact fun hne => hne rfl), report_bind]
  refine bind_congr_of_ok fun handlers _ => ?_
  rw [mapM_report (relocateAttribute_eq hfits), report_bind]
  rfl

end

/-- **Checked insertion.** An insertion whose indices, slices and subtractions are all checked is the insertion. -/
theorem insert_eq (body : MethodBody) (insertions : List Insertion) (pool : ConstantPool) :
    insert body insertions pool = report (body.insert insertions pool) := by
  unfold insert
  rw [offsetsFrom_zero]
  cases hcode : Placed.decodeAll body.code with
  | error e =>
    unfold MethodBody.insert
    rw [hcode]
    rfl
  | ok code =>
    have htiles := Placed.decodeAll_eq_ok_iff.1 hcode
    obtain ⟨ss, e', hchain, rfl⟩ := Splice.Chain.exists_of_tiles insertions htiles 0
    rw [Nat.zero_add] at hchain
    have hpre : ([] : List UInt8).length = 0 := rfl
    have hplaces : placeFrom (Insertion.groups insertions) body.code 0 ((ss.map (·.old)).map (·.offset)) =
        .ok (ss.map Splice.slot, e') := placeFrom_eq hchain htiles hpre
    have hlength : (Layout.of (Insertion.groups insertions) body.code.length (ss.map (·.old))).newLength = e' := by
      rw [hchain.layout]
    show (placeFrom (Insertion.groups insertions) body.code 0 ((ss.map (·.old)).map (·.offset)) >>= fun places => _) = _
    rw [hplaces]
    dsimp only [bind, Except.bind]
    rw [← hchain.layout]
    cases hmisplaced : Insertion.misplaced? (Insertion.groups insertions)
        (Layout.of (Insertion.groups insertions) body.code.length (ss.map (·.old))) with
    | some offset =>
      unfold MethodBody.insert
      rw [hcode]
      dsimp only [bind, Except.bind, Except.mapError]
      rw [hmisplaced]
      rfl
    | none =>
      rw [MethodBody.insert_eq hcode hchain (hchain.misplaced?_eq_none_iff.1 hmisplaced)]
      show (if MethodBody.maxCodeLength < e' then _ else _) = _
      split_ifs with hlong
      · rfl
      · exact moveParts_eq hchain htiles (Nat.lt_succ_of_le (Nat.le_of_not_lt hlong))

/-- Where a target goes is known at the instructions and at the end of the code, and nowhere else. -/
theorem exists_target_iff {code : List UInt8} {ps : List Placed} (h : Placed.decodeAll code = .ok ps)
    (insertions : List Insertion) (t : Nat) :
    (∃ t', (Layout.of (Insertion.groups insertions) code.length ps).target t = .ok t') ↔
      Placed.IsTarget ps code.length t := by
  obtain ⟨ss, e', hchain, rfl⟩ := Splice.Chain.exists_of_tiles insertions (Placed.decodeAll_eq_ok_iff.1 h) 0
  rw [Nat.zero_add] at hchain
  show (∃ t', (Layout.of _ code.length (ss.map (·.old))).relocation.target t t') ↔ _
  rw [hchain.relocation_layout]
  constructor
  · rintro ⟨t', ⟨rfl, -⟩ | ⟨s, hs, rfl, -⟩⟩
    · exact Or.inl rfl
    · exact Or.inr ⟨s.old, List.mem_map_of_mem hs, rfl⟩
  · exact (Splice.covers_relocation ss code.length e').target

/-- Targets stay in order, and the end of the code stays its end. -/
theorem target_strictMono {code : List UInt8} {ps : List Placed} (h : Placed.decodeAll code = .ok ps)
    (insertions : List Insertion) :
    let layout := Layout.of (Insertion.groups insertions) code.length ps
    (∀ t u t' u', layout.target t = .ok t' → layout.target u = .ok u' → t < u → t' < u') ∧
      layout.target code.length = .ok layout.newLength := by
  obtain ⟨ss, e', hchain, rfl⟩ := Splice.Chain.exists_of_tiles insertions (Placed.decodeAll_eq_ok_iff.1 h) 0
  rw [Nat.zero_add] at hchain
  intro layout
  have hrelocation : layout.relocation = Splice.relocation ss code.length e' := hchain.relocation_layout
  refine ⟨fun t u t' u' ht hu htu => ?_, if_pos rfl⟩
  replace ht : layout.relocation.target t t' := ht
  replace hu : layout.relocation.target u u' := hu
  rw [hrelocation] at ht hu
  exact hchain.target_strictMono ht hu htu

/-- **Safety.** Whatever bytes a method body is read from and whatever is inserted, no index, slice or subtraction is out
of range: what stops the computation is an error that is reported, and the outcome is that of the insertion. This rests
on the new places of targets: they are known at the instructions and at the end of the code only, they stay in order,
and the end stays the end. -/
theorem rewrite_never_faults (content : List UInt8) (insertions : List Insertion) (pool : ConstantPool) :
    (∀ halt, rewrite content insertions pool = .error halt → ∃ cause, halt = .refused cause) ∧
    rewrite content insertions pool = report (do
      let body ← (MethodBody.decode content).mapError .format
      body.insert insertions pool) ∧
    ∀ body code, MethodBody.decode content = .ok body → Placed.decodeAll body.code = .ok code →
      let layout := Layout.of (Insertion.groups insertions) body.code.length code
      (∀ t, (∃ t', layout.target t = .ok t') ↔ Placed.IsTarget code body.code.length t) ∧
        (∀ t u t' u', layout.target t = .ok t' → layout.target u = .ok u' → t < u → t' < u') ∧
        layout.target body.code.length = .ok layout.newLength := by
  have houtcome : rewrite content insertions pool = report (do
      let body ← (MethodBody.decode content).mapError .format
      body.insert insertions pool) := by
    rw [rewrite, report_bind]
    exact bind_congr_of_ok fun body _ => insert_eq body insertions pool
  refine ⟨fun halt hhalt => ?_, houtcome, fun body code _ hcode => ?_⟩
  · rw [houtcome] at hhalt
    exact exists_of_report_eq_error hhalt
  · exact ⟨exists_target_iff hcode insertions, target_strictMono hcode insertions⟩

theorem rewrite_jumpingBytes :
    rewrite MethodBody.jumpingBytes MethodBody.jumpingInsertions MethodBody.jumpingPool =
      .ok MethodBody.jumpingResult := by
  obtain ⟨-, houtcome, -⟩ :=
    rewrite_never_faults MethodBody.jumpingBytes MethodBody.jumpingInsertions MethodBody.jumpingPool
  rw [houtcome, MethodBody.decode_jumpingBytes]
  show report (MethodBody.jumpingBody.insert _ _) = _
  rw [MethodBody.insert_jumpingBody]
  rfl

end Guarded

end Registrar
