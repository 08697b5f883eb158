import Registrar.Proofs.Attributes
import Registrar.Proofs.Bodies
import Registrar.Proofs.Splicing

/-!
# What an insertion makes of a method body

* `MethodBody.Spliced` : the new code is the old one with the insertions, its jumps relocated;
* `MethodBody.TablesMoved` : what becomes of the exception table and of the nested attributes;
* `MethodBody.insert_eq_ok_iff` : an insertion succeeds on just that, if the code is not too long;
* `MethodBody.counts_of_insert` : the counts of a stored body still fit their fields.

The rest of the module states what `insert` makes of the code and of the stack map on their own, and that what it
makes is read back after it is stored.
-/

namespace Registrar

/-! ## Splices of a code -/

namespace Splice

variable {insertions : List Insertion} {o n e e' : Nat} {ss : List Splice}

/-- The splices of a code, with the old instructions in the place of the moved ones. -/
theorem Chain.exists_of_tiles (insertions : List Insertion) {code : List UInt8} {ps : List Placed}
    (h : Tiles o code ps) (n : Nat) :
    ∃ ss e', Chain insertions o n ss (o + code.length) e' ∧ ss.map (·.old) = ps := by
  induction h generalizing n with
  | nil o => exact ⟨[], n, .nil o n, rfl⟩
  | @cons o i pad rest ps _ hpad _ ih =>
    let s : Splice := ⟨⟨o, i⟩, n, Insertion.bytesAt insertions o, Insertion.capturesAt insertions o, i⟩
    obtain ⟨ss, e', hchain, hold⟩ := ih s.stop
    have hlen : o + (i.spell pad ++ rest).length = o + i.size o + rest.length := by
      rw [List.length_append, Instruction.length_spell hpad, Nat.add_assoc]
    rw [hlen]
    exact ⟨s :: ss, e', .cons (s := s) rfl rfl hchain, by simp [hold, s]⟩

/-- The moved instructions of a chain play no part in where things are. -/
theorem Chain.exists_moved {P : Splice → Instruction → Prop} {parts : List (List UInt8)}
    (h : Chain insertions o n ss e e')
    (hparts : List.Forall₂ (fun s part => ∃ i, P s i ∧ part = { s with moved := i }.bytes) ss parts) :
    ∃ ss', Chain insertions o n ss' e e' ∧ ss'.map (·.old) = ss.map (·.old) ∧ ss'.map bytes = parts ∧
      ∀ s' ∈ ss', ∃ s, P s s'.moved ∧ s.old = s'.old ∧ s.position = s'.position := by
  induction h generalizing parts with
  | nil o n =>
    cases hparts
    exact ⟨[], .nil o n, rfl, rfl, by simp⟩
  | @cons s ss _ _ hi hc _ ih =>
    cases hparts with
    | @cons _ part _ parts hpart hparts =>
      obtain ⟨i, hP, rfl⟩ := hpart
      obtain ⟨ss', hchain, hold, hbytes, hmoved⟩ := ih hparts
      refine ⟨{ s with moved := i } :: ss', .cons (s := { s with moved := i }) hi hc hchain, ?_, ?_, ?_⟩
      · rw [List.map_cons, List.map_cons, hold]
      · rw [List.map_cons, hbytes]
      · intro s' hs'
        rcases List.mem_cons.1 hs' with rfl | hs'
        · exact ⟨s, hP, rfl, rfl⟩
        · exact hmoved s' hs'

theorem length_bytes {s : Splice} (h : s.moved.size s.position = s.old.instruction.size s.position) :
    s.start + s.bytes.length = s.stop := by
  rw [bytes, List.length_append, Instruction.length_spell List.length_replicate, h, stop, position]
  omega

theorem Chain.length_flatMap_bytes (h : Chain insertions o n ss e e')
    (hsize : ∀ s ∈ ss, s.moved.size s.position = s.old.instruction.size s.position) :
    n + (ss.flatMap bytes).length = e' := by
  induction h with
  | nil => rfl
  | @cons s _ _ _ _ _ _ ih =>
    rw [List.flatMap_cons, List.length_append, ← Nat.add_assoc, length_bytes (hsize s List.mem_cons_self)]
    exact ih (List.forall_mem_cons.1 hsize).2

/-- Insertions are misplaced unless each is in front of an instruction. -/
theorem Chain.misplaced?_eq_none_iff (h : Chain insertions 0 0 ss e e') :
    Insertion.misplaced? (Insertion.groups insertions) (Layout.of (Insertion.groups insertions) e (ss.map (·.old))) =
        none ↔
      ∀ i ∈ insertions, ∃ s ∈ ss, s.old.offset = i.offset := by
  have hindex : ∀ o, (Layout.of (Insertion.groups insertions) e (ss.map (·.old))).index.contains o = true ↔
      ∃ s ∈ ss, s.old.offset = o := by
    intro o
    rw [h.layout, Std.TreeMap.contains_ofList, List.contains_iff_mem]
    simp [slot]
  rw [Insertion.misplaced?, List.find?_eq_none]
  constructor
  · intro hall i hi
    have hcontains := hall i.offset (Std.TreeMap.mem_keys.2 (Insertion.mem_groups.2 ⟨i, hi, rfl⟩))
    exact (hindex i.offset).1 (by simpa using hcontains)
  · intro hall o ho
    obtain ⟨i, hi, rfl⟩ := Insertion.mem_groups.1 (Std.TreeMap.mem_keys.1 ho)
    simpa using (hindex i.offset).2 (hall i hi)

end Splice

/-! ## Method bodies -/

namespace MethodBody

variable {pool : ConstantPool}

/-- `code'` is `code` with the insertions: for each instruction in turn what is inserted in front of it, and the
instruction relocated. Each insertion is in front of an instruction. -/
structure Spliced (insertions : List Insertion) (code code' : List UInt8) (ss : List Splice) : Prop where
  decoded : Placed.decodeAll code = .ok (ss.map (·.old))
  chain : Splice.Chain insertions 0 0 ss code.length code'.length
  bytes : code' = ss.flatMap Splice.bytes
  moved : ∀ s ∈ ss, Instruction.Moved (Splice.relocation ss code.length code'.length).target s.old.offset s.position
    s.old.instruction s.moved
  placed : ∀ i ∈ insertions, ∃ s ∈ ss, s.old.offset = i.offset

theorem insert_eq_ok_iff_layout {body body' : MethodBody} {insertions : List Insertion} :
    body.insert insertions pool = .ok body' ↔
      ∃ ps, Placed.decodeAll body.code = .ok ps ∧
        let groups := Insertion.groups insertions
        let layout := Layout.of groups body.code.length ps
        Insertion.misplaced? groups layout = none ∧ layout.newLength ≤ maxCodeLength ∧
          relocateCode groups layout ps = .ok body'.code ∧
          body.handlers.mapM (·.relocate layout) = .ok body'.handlers ∧
          ∃ attributes, body.attributes.mapM (relocateAttribute pool layout) = .ok attributes ∧
            body'.attributes = attributes.filterMap id ∧ body'.maxStack = body.maxStack ∧
            body'.maxLocals = body.maxLocals := by
  simp only [insert, Except.bind_eq_ok_iff, Except.mapError_eq_ok_iff]
  refine exists_congr fun ps => and_congr_right fun _ => ?_
  cases Insertion.misplaced? (Insertion.groups insertions) (Layout.of (Insertion.groups insertions) body.code.length ps)
  · split_ifs with hlong
    · simp [throw, throwThe, MonadExceptOf.throw, bind, Except.bind, Nat.not_le.2 hlong]
    · simp only [Except.bind_eq_ok_iff, Except.pure_eq_ok_iff, Nat.le_of_not_lt hlong, true_and]
      constructor
      · rintro ⟨moved, hmoved, handlers, hhandlers, attributes, hattributes, rfl⟩
        exact ⟨hmoved, hhandlers, attributes, hattributes, rfl, rfl, rfl⟩
      · rintro ⟨hmoved, hhandlers, attributes, hattributes, hkept, hstack, hlocals⟩
        refine ⟨_, hmoved, _, hhandlers, attributes, hattributes, ?_⟩
        rw [← hkept, ← hstack, ← hlocals]
  · simp [throw, throwThe, MonadExceptOf.throw, bind, Except.bind]

/-- What stands beside the code moved along with it. -/
structure TablesMoved (pool : ConstantPool) (R : Relocation) (body body' : MethodBody) : Prop where
  maxStack : body'.maxStack = body.maxStack
  maxLocals : body'.maxLocals = body.maxLocals
  handlers : List.Forall₂ (Handler.Moved R) body.handlers body'.handlers
  attributes : Attribute.AllMoved pool R body.attributes body'.attributes

theorem relocatePlaced_eq_ok_iff {insertions : List Insertion} {layout : Layout} {s : Splice} {part : List UInt8}
    (hi : s.inserted = Insertion.bytesAt insertions s.old.offset) :
    relocatePlaced (Insertion.groups insertions) layout s.old s.slot = .ok part ↔
      ∃ i, s.old.instruction.relocate layout s.old.offset s.position = .ok i ∧ part = { s with moved := i }.bytes := by
  have hbytes : ∀ i : Instruction, { s with moved := i }.bytes =
      Insertion.groupBytes ((Insertion.groups insertions).getD s.old.offset []) ++ i.encode s.slot.position := by
    intro i
    rw [Insertion.getD_groups, Instruction.encode_eq_spell]
    exact congrArg (· ++ _) hi
  simp only [relocatePlaced, hbytes]
  constructor
  · intro h
    split at h
    · next i hi =>
      cases h
      exact ⟨i, hi, rfl⟩
    · cases h
  · rintro ⟨i, hrelocate, rfl⟩
    rw [show s.slot.position = s.position from rfl, hrelocate]

/-- What a layout makes of a code that splits into the old instructions of a chain. -/
theorem relocateCode_eq_ok_iff {insertions : List Insertion} {e e' : Nat} {ss : List Splice} {code' : List UInt8}
    (h : Splice.Chain insertions 0 0 ss e e') (hlt : e' < 0x10000) :
    relocateCode (Insertion.groups insertions) (Layout.of (Insertion.groups insertions) e (ss.map (·.old)))
        (ss.map (·.old)) = .ok code' ↔
      ∃ parts, List.Forall₂ (fun s part => ∃ i,
        Instruction.Moved (Splice.relocation ss e e').target s.old.offset s.position s.old.instruction i ∧
          part = { s with moved := i }.bytes) ss parts ∧ code' = parts.flatten := by
  have hfits := h.fits hlt
  rw [← h.relocation_layout] at hfits ⊢
  have hplaced : ∀ s ∈ ss, ∀ part,
      relocatePlaced (Insertion.groups insertions) (Layout.of (Insertion.groups insertions) e (ss.map (·.old))) s.old
          s.slot = .ok part ↔
        ∃ i, Instruction.Moved (Layout.of (Insertion.groups insertions) e (ss.map (·.old))).relocation.target
          s.old.offset s.position s.old.instruction i ∧ part = { s with moved := i }.bytes := by
    intro s hs part
    have hposition : s.position < 0x10000 := Nat.lt_trans (h.position_lt hs) hlt
    simp only [relocatePlaced_eq_ok_iff (h.inserted_eq hs).1, Instruction.relocate_eq_ok_iff hfits hposition]
  have hslots : (Layout.of (Insertion.groups insertions) e (ss.map (·.old))).slots = ss.map Splice.slot := by
    rw [h.layout]
  simp only [relocateCode, hslots, List.zip_map', Except.bind_eq_ok_iff, Except.mapM_eq_ok_iff, Except.pure_eq_ok_iff,
    List.forall₂_map_left_iff, eq_comm (b := code')]
  exact exists_congr fun parts => and_congr_left fun _ => List.forall₂_congr_of_mem hplaced

/-- The code is as long as the layout says. -/
theorem length_of_relocateCode {insertions : List Insertion} {e e' : Nat} {ss : List Splice} {code' : List UInt8}
    (h : Splice.Chain insertions 0 0 ss e e') (hlt : e' < 0x10000)
    (hcode : relocateCode (Insertion.groups insertions) (Layout.of (Insertion.groups insertions) e (ss.map (·.old)))
      (ss.map (·.old)) = .ok code') : code'.length = e' := by
  obtain ⟨parts, hparts, rfl⟩ := (relocateCode_eq_ok_iff h hlt).1 hcode
  obtain ⟨ss', hchain, -, rfl, hpart⟩ := h.exists_moved hparts
  have hsize : ∀ s ∈ ss', s.moved.size s.position = s.old.instruction.size s.position := by
    intro s hs
    obtain ⟨s₀, hmoved, hold, -⟩ := hpart s hs
    rw [← hold]
    exact hmoved.size s.position
  rw [← List.flatMap_def, ← hchain.length_flatMap_bytes hsize, Nat.zero_add]

/-- An insertion succeeds just when the spliced code is not too long, and what stands beside it can move along. -/
theorem insert_eq_ok_iff {body body' : MethodBody} {insertions : List Insertion} :
    body.insert insertions pool = .ok body' ↔
      ∃ ss, Spliced insertions body.code body'.code ss ∧ body'.code.length ≤ maxCodeLength ∧
        TablesMoved pool (Splice.relocation ss body.code.length body'.code.length) body body' := by
  rw [insert_eq_ok_iff_layout]
  constructor
  · rintro ⟨ps, hps, hplaced, hlen, hcode, hhandlers, attributes, hattributes, hkept, hstack, hlocals⟩
    obtain ⟨ss₀, e', hchain₀, rfl⟩ := Splice.Chain.exists_of_tiles insertions (Placed.decodeAll_eq_ok_iff.1 hps) 0
    rw [Nat.zero_add] at hchain₀
    have hlt : e' < 0x10000 := by
      rw [hchain₀.layout] at hlen
      exact Nat.lt_succ_of_le hlen
    obtain ⟨parts, hparts, hflatten⟩ := (relocateCode_eq_ok_iff hchain₀ hlt).1 hcode
    obtain ⟨ss, hchain, hold, rfl, hpart⟩ := hchain₀.exists_moved hparts
    have hmoved : ∀ s ∈ ss, Instruction.Moved (Splice.relocation ss body.code.length e').target s.old.offset s.position
        s.old.instruction s.moved := by
      intro s hs
      obtain ⟨s₀, hs₀, holds, hposition⟩ := hpart s hs
      rwa [← hchain.relocation_layout, hold, hchain₀.relocation_layout, ← holds, ← hposition]
    have hbytes : body'.code = ss.flatMap Splice.bytes := by rw [hflatten, List.flatMap_def]
    have hlength : e' = body'.code.length := (length_of_relocateCode hchain₀ hlt hcode).symm
    rw [← hold] at hps hplaced hhandlers hattributes
    subst hlength
    have hfits := hchain.fits hlt
    rw [← hchain.relocation_layout] at hfits
    refine ⟨ss, ⟨hps, hchain, hbytes, hmoved, hchain.misplaced?_eq_none_iff.1 hplaced⟩, Nat.le_of_lt_succ hlt, ?_⟩
    rw [← hchain.relocation_layout]
    refine ⟨hstack, hlocals, ?_, (relocateAttributes_eq_ok_iff hfits).1 ⟨attributes, hattributes, hkept⟩⟩
    simpa only [Except.mapM_eq_ok_iff, Handler.relocate_eq_ok_iff] using hhandlers
  · rintro ⟨ss, hspliced, hlen, htables⟩
    have hchain := hspliced.chain
    have hlt : body'.code.length < 0x10000 := Nat.lt_succ_of_le hlen
    have hfits := hchain.fits hlt
    rw [← hchain.relocation_layout] at hfits htables
    obtain ⟨attributes, hattributes, hkept⟩ := (relocateAttributes_eq_ok_iff hfits).2 htables.attributes
    refine ⟨_, hspliced.decoded, hchain.misplaced?_eq_none_iff.2 hspliced.placed, ?_,
      (relocateCode_eq_ok_iff hchain hlt).2 ⟨ss.map Splice.bytes, ?_, ?_⟩, ?_, attributes, hattributes, hkept,
      htables.maxStack, htables.maxLocals⟩
    · rw [hchain.layout]
      exact hlen
    · exact List.forall₂_map_right_iff.2 (List.forall₂_same.2 fun s hs => ⟨s.moved, hspliced.moved s hs, rfl⟩)
    · rw [hspliced.bytes, List.flatMap_def]
    · simpa only [Except.mapM_eq_ok_iff, Handler.relocate_eq_ok_iff] using htables.handlers

/-! ## The code and the stack map -/

/-- A jump over a `nop` to a return, with a frame at each of both. The second frame holds the object that the `nop` would
make. -/
def jumpingBody : MethodBody where
  maxStack := 1
  maxLocals := 1
  code := [0xa7, 0x00, 0x04, 0x00, 0xb1]
  handlers := [⟨0, 3, 4, 0⟩]
  attributes := [⟨1, [0, 2, 3, 64, 8, 0, 3]⟩]

/-- Code in front of both targets. Some of the code in front of the return captures the jump. -/
def jumpingInsertions : List Insertion :=
  [⟨4, [0x01, 0x57], true⟩, ⟨3, [0x00], false⟩, ⟨4, [0x00], false⟩]

/-- A pool with the name of the stack map. -/
def jumpingPool : ConstantPool := ⟨#[.unusable, .ofText Attribute.stackMapName]⟩

/-- The body with the code. -/
def jumpingResult : MethodBody where
  maxStack := 1
  maxLocals := 1
  code := [0xa7, 0x00, 0x05, 0x00, 0x00, 0x01, 0x57, 0x00, 0xb1]
  handlers := [⟨0, 4, 5, 0⟩]
  attributes := [⟨1, [0, 2, 4, 64, 8, 0, 4]⟩]

theorem insert_jumpingBody : jumpingBody.insert jumpingInsertions jumpingPool = .ok jumpingResult := by
  decide +kernel

/-- **The code.** What `insert` returns is, for each instruction of the old code in turn, all that is inserted in front
of it and the instruction relocated, with the distances it needs at its new place. It is as long as the layout says. -/
theorem insert_code {body body' : MethodBody} {insertions : List Insertion}
    (h : body.insert insertions pool = .ok body') :
    ∃ ss, Spliced insertions body.code body'.code ss ∧
      (Layout.of (Insertion.groups insertions) body.code.length (ss.map (·.old))).newLength = body'.code.length := by
  obtain ⟨ss, hspliced, -, -⟩ := insert_eq_ok_iff.1 h
  exact ⟨ss, hspliced, by rw [hspliced.chain.layout]⟩

theorem insert_code_jumpingBody : ∃ ss, Spliced jumpingInsertions jumpingBody.code jumpingResult.code ss ∧
    (Layout.of (Insertion.groups jumpingInsertions) jumpingBody.code.length (ss.map (·.old))).newLength =
      jumpingResult.code.length := insert_code insert_jumpingBody

/-- **The stack maps.** Each one holds the frames it held, of the same kinds and types, at the new targets of their
offsets. Uninitialized types name the new place of the instruction itself. -/
theorem insert_stackMaps {body body' : MethodBody} {insertions : List Insertion}
    (h : body.insert insertions pool = .ok body') :
    ∃ ss, Spliced insertions body.code body'.code ss ∧
      List.Forall₂ (fun a a' => ∃ frames frames', StackMap.Holds a.content frames ∧ StackMap.Holds a'.content frames' ∧
          List.Forall₂ (Frame.Moved (Splice.relocation ss body.code.length body'.code.length)) frames frames')
        (body.attributes.filter (Member.isNamed pool Attribute.stackMapName))
        (body'.attributes.filter (Member.isNamed pool Attribute.stackMapName)) := by
  obtain ⟨ss, hspliced, hlen, htables⟩ := insert_eq_ok_iff.1 h
  have hfits := hspliced.chain.fits (Nat.lt_succ_of_le hlen)
  refine ⟨ss, hspliced, htables.attributes.stackMaps.imp fun a a' hmoved => ?_⟩
  obtain ⟨frames, frames', hframes, hmoved, hcontent⟩ := hmoved
  have hframes' := StackMap.decode_spell_moved hfits hframes hmoved
  rw [← hcontent] at hframes'
  exact ⟨frames, frames', StackMap.decode_eq_ok_iff.1 hframes, StackMap.decode_eq_ok_iff.1 hframes', hmoved⟩

theorem insert_stackMaps_jumpingBody :
    ∃ ss, Spliced jumpingInsertions jumpingBody.code jumpingResult.code ss ∧
      List.Forall₂ (fun a a' => ∃ frames frames', StackMap.Holds a.content frames ∧ StackMap.Holds a'.content frames' ∧
          List.Forall₂ (Frame.Moved (Splice.relocation ss jumpingBody.code.length jumpingResult.code.length)) frames
            frames')
        (jumpingBody.attributes.filter (Member.isNamed jumpingPool Attribute.stackMapName))
        (jumpingResult.attributes.filter (Member.isNamed jumpingPool Attribute.stackMapName)) :=
  insert_stackMaps insert_jumpingBody

/-! ## Stored bodies -/

/-- Handlers keep their number, and attributes are at most dropped: the counts that fitted their fields still do. -/
theorem counts_of_insert {body moved : MethodBody} {insertions : List Insertion} (hbody : body.Storable)
    (h : body.insert insertions pool = .ok moved) :
    moved.handlers.length < 0x10000 ∧ moved.attributes.length < 0x10000 := by
  obtain ⟨ss, -, -, htables⟩ := insert_eq_ok_iff.1 h
  rw [← htables.handlers.length_eq]
  exact ⟨hbody.handlers, Nat.lt_of_le_of_lt htables.attributes.length_le hbody.attributes⟩

/-- **Storing.** The bytes that a body is read from are the bytes that it is stored in. A body that code was inserted
into is what is read from its bytes, whenever it can be stored. -/
theorem storing_of_decode {content : List UInt8} {body : MethodBody} (h : decode content = .ok body) :
    body.encode = .ok content ∧
      ∀ (insertions : List Insertion) (pool : ConstantPool) (moved : MethodBody) (content' : List UInt8),
        body.insert insertions pool = .ok moved → moved.encode = .ok content' → decode content' = .ok moved := by
  obtain ⟨hstorable, hcontent⟩ := decode_eq_ok_iff.1 h
  refine ⟨encode_eq_ok_iff.2 ⟨hstorable.code, hstorable.contents, hcontent⟩, ?_⟩
  intro insertions pool moved content' hmoved hencode
  obtain ⟨hhandlers, hattributes⟩ := counts_of_insert hstorable hmoved
  exact decode_of_encode hencode hhandlers hattributes

/-- The bytes of the body that jumps. -/
def jumpingBytes : List UInt8 :=
  [0, 1, 0, 1, 0, 0, 0, 5, 0xa7, 0x00, 0x04, 0x00, 0xb1, 0, 1, 0, 0, 0, 3, 0, 4, 0, 0, 0, 1, 0, 1, 0, 0, 0, 7, 0, 2, 3,
    64, 8, 0, 3]

/-- The bytes of the body with the code. -/
def jumpingResultBytes : List UInt8 :=
  [0, 1, 0, 1, 0, 0, 0, 9, 0xa7, 0x00, 0x05, 0x00, 0x00, 0x01, 0x57, 0x00, 0xb1, 0, 1, 0, 0, 0, 4, 0, 5, 0, 0, 0, 1,
    0, 1, 0, 0, 0, 7, 0, 2, 4, 64, 8, 0, 4]

theorem decode_jumpingBytes : decode jumpingBytes = .ok jumpingBody := by decide +kernel

theorem encode_jumpingResult : jumpingResult.encode = .ok jumpingResultBytes := by decide +kernel

theorem storing_jumpingBytes :
    jumpingBody.encode = .ok jumpingBytes ∧ decode jumpingResultBytes = .ok jumpingResult := by
  obtain ⟨hencode, hread⟩ := storing_of_decode decode_jumpingBytes
  exact ⟨hencode, hread _ _ _ _ insert_jumpingBody encode_jumpingResult⟩

end MethodBody

end Registrar
