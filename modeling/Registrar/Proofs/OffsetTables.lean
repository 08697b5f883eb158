import Registrar.Proofs.ControlFlow

/-!
# What the tables of a method body say after an insertion

A handler guards the offsets from its start up to its stop, a local variable lives on those of its range. Both ends are
moved as targets, so what captures them decides on which side of the inserted code they end up.

* `Splice.Chain.within_iff` : a moved range holds an offset in or behind what a target points at just when the range held
  the instruction;
* `Handler.Kept`, `LocalVariable.Kept` : an entry says of the moved instructions what it said of the old ones;
* `OffsetTable.Kept` : so do all entries of a table, in order;
* `MethodBody.insert_tables` : an insertion keeps all three kinds of tables.
-/

namespace Registrar

/-- The handler guards an offset. -/
def Handler.Guards (h : Handler) (u : Nat) : Prop := h.start.toNat ≤ u ∧ u < h.stop.toNat

/-- The variable has a value at an offset. -/
def LocalVariable.LivesAt (v : LocalVariable) (u : Nat) : Prop :=
  v.start.toNat ≤ u ∧ u < v.start.toNat + v.length.toNat

namespace Splice.Chain

variable {insertions : List Insertion} {o n e e' : Nat} {ss : List Splice}

theorem within_iff (h : Chain insertions o n ss e e') {s : Splice} (hs : s ∈ ss) {a a' b b' u : Nat}
    (ha : (relocation ss e e').target a a') (hb : (relocation ss e e').target b b') (hsu : s.target ≤ u)
    (hus : u < s.stop) : a' ≤ u ∧ u < b' ↔ a ≤ s.old.offset ∧ s.old.offset < b := by
  rw [h.target_le_iff hs ha hsu hus, ← not_le, h.target_le_iff hs hb hsu hus, not_le]

/-- Code in front of the first instruction that captures nothing lies in front of all targets. -/
theorem position_le_of_target (h : Chain insertions o n ss e e') {s : Splice} (hs : s ∈ ss) (hzero : s.old.offset = 0)
    (hcaptures : s.captures = false) {t t' : Nat} (ht : (relocation ss e e').target t t') : s.position ≤ t' := by
  have hself : (relocation ss e e').target s.old.offset s.target := Or.inr ⟨s, hs, rfl, rfl⟩
  have hle := h.target_mono hself ht (by omega)
  rwa [target, hcaptures, if_neg Bool.false_ne_true] at hle

end Splice.Chain

/-! ## Entries -/

/-- The handler `h'` is what an insertion makes of the handler `h`: it guards the same instructions, and the code in front
of an instruction that captures what pointed there as it guards the instruction. Code in front of the first instruction
that captures nothing is not guarded. -/
structure Handler.Kept (insertions : List Insertion) (ss : List Splice) (e e' : Nat) (h h' : Handler) : Prop where
  catchType : h'.catchType = h.catchType
  target : (Splice.relocation ss e e').target h.target.toNat h'.target.toNat
  instruction : ∀ s ∈ ss, h'.Guards s.position ↔ h.Guards s.old.offset
  captured : ∀ s ∈ ss, Insertion.capturesAt insertions s.old.offset = true → ∀ u, s.start ≤ u → u < s.position →
    (h'.Guards u ↔ h.Guards s.old.offset)
  entry : ∀ s ∈ ss, s.old.offset = 0 → Insertion.capturesAt insertions 0 = false → ∀ u, s.start ≤ u → u < s.position →
    ¬h'.Guards u

/-- The variable `v'` is what an insertion makes of the variable `v`: it lives at the same instructions. -/
structure LocalVariable.Kept (ss : List Splice) (v v' : LocalVariable) : Prop where
  name : v'.name = v.name
  descriptor : v'.descriptor = v.descriptor
  slot : v'.slot = v.slot
  instruction : ∀ s ∈ ss, v'.LivesAt s.position ↔ v.LivesAt s.old.offset

section
variable {insertions : List Insertion} {e e' : Nat} {ss : List Splice} (h : Splice.Chain insertions 0 0 ss e e')
include h

theorem Handler.Moved.kept {g g' : Handler} (hg : g.Moved (Splice.relocation ss e e') g') :
    g.Kept insertions ss e e' g' := by
  refine ⟨hg.catchType, hg.target, fun s hs => ?_, fun s hs hcaptures u hlow hhigh => ?_,
    fun s hs hzero hcaptures u hlow hhigh hguards => ?_⟩
  · exact h.within_iff hs hg.start hg.stop s.target_le_position s.position_lt_stop
  · have hlt := s.position_lt_stop
    have htarget : s.target = s.start := by
      rw [Splice.target, (h.inserted_eq hs).2, hcaptures, if_pos rfl]
    exact h.within_iff hs hg.start hg.stop (by omega) (by omega)
  · rw [← hzero, ← (h.inserted_eq hs).2] at hcaptures
    have hle := h.position_le_of_target hs hzero hcaptures hg.start
    have hstart := hguards.1
    omega

theorem LocalVariable.Moved.kept {v v' : LocalVariable} (hv : v.Moved (Splice.relocation ss e e') v') :
    v.Kept ss v' :=
  ⟨hv.name, hv.descriptor, hv.slot,
    fun s hs => h.within_iff hs hv.start hv.stop s.target_le_position s.position_lt_stop⟩

end

/-! ## Tables -/

/-- Both contents are tables, and the entries of the second stand for those of the first, in order. -/
def OffsetTable.Kept {α : Type} (decode : Decoder α) (K : α → α → Prop) (a a' : Attribute) : Prop :=
  ∃ entries entries' rest, Decoder.counted decode a.content = .ok (entries, rest) ∧
    Decoder.counted decode a'.content = .ok (entries', []) ∧ List.Forall₂ K entries entries'

/-- The entries of a moved table stand for the old ones as far as the way in which they moved says so. -/
theorem OffsetTable.Moved.kept {α : Type} {decode : Decoder α} {encode : α → List UInt8} {M K : α → α → Prop}
    (hdecode : decode.Reads (Decoder.Spelled (fun _ => True) encode)) (hK : ∀ x x', M x x' → K x x') {a a' : Attribute}
    (h : OffsetTable.Moved decode encode M a.content a'.content) : OffsetTable.Kept decode K a a' := by
  obtain ⟨entries, entries', rest, hentries, hentries', hmoved⟩ := h.decode_moved hdecode
  exact ⟨entries, entries', rest, hentries, hentries', hmoved.imp hK⟩

namespace Attribute

/-- The name of a table of line numbers. -/
def lineNumbersName : String := "LineNumberTable"

variable {pool : ConstantPool} {insertions : List Insertion} {e e' : Nat} {ss : List Splice} {as as' : List Attribute}

theorem AllMoved.lineNumbers (h : AllMoved pool (Splice.relocation ss e e') as as') :
    List.Forall₂ (OffsetTable.Kept LineNumber.decode (LineNumber.Moved (Splice.relocation ss e e')))
      (as.filter (Member.isNamed pool lineNumbersName)) (as'.filter (Member.isNamed pool lineNumbersName)) := by
  refine (h.named lineNumbersName (by decide)).imp fun a a' hcontent => ?_
  rw [ContentMoved, if_pos (by rfl)] at hcontent
  exact hcontent.kept LineNumber.reads_decode fun _ _ hl => hl

theorem AllMoved.variables (h : AllMoved pool (Splice.relocation ss e e') as as')
    (hchain : Splice.Chain insertions 0 0 ss e e') {name : String} (hname : name ∈ variableNames) :
    List.Forall₂ (OffsetTable.Kept LocalVariable.decode (LocalVariable.Kept ss))
      (as.filter (Member.isNamed pool name)) (as'.filter (Member.isNamed pool name)) := by
  have hother : name ≠ "LineNumberTable" ∧ name ∉ annotationNames := by
    rcases List.mem_pair.1 hname with rfl | rfl <;> decide
  refine (h.named name hother.2).imp fun a a' hcontent => ?_
  rw [ContentMoved, if_neg hother.1, if_pos hname] at hcontent
  exact hcontent.kept LocalVariable.reads_decode fun _ _ hv => hv.kept hchain

end Attribute

namespace MethodBody

variable {pool : ConstantPool}

/-- Four instructions under two handlers, with lines and variables that start and stop where code is put in. -/
def tabledBody : MethodBody where
  maxStack := 1
  maxLocals := 1
  code := [0x00, 0x10, 0x07, 0x57, 0xb1]
  handlers := [⟨0, 4, 4, 0⟩, ⟨3, 5, 0, 2⟩]
  attributes := [⟨1, [0, 2, 0, 0, 0, 7, 0, 3, 0, 8]⟩, ⟨2, [0, 1, 0, 1, 0, 4, 0, 1, 0, 2, 0, 0]⟩,
    ⟨3, [0, 1, 0, 0, 0, 3, 0, 1, 0, 2, 0, 0]⟩]

/-- Code at the entry that captures nothing, and code in front of the return that does. -/
def tabledInsertions : List Insertion := [⟨0, [0x01, 0x57], false⟩, ⟨4, [0x00], true⟩]

/-- A pool with the names of the tables. -/
def tabledPool : ConstantPool where
  entries := #[.unusable, .ofText Attribute.lineNumbersName, .ofText "LocalVariableTable",
    .ofText "LocalVariableTypeTable"]

/-- The body with the code. -/
def tabledResult : MethodBody where
  maxStack := 1
  maxLocals := 1
  code := [0x01, 0x57, 0x00, 0x10, 0x07, 0x57, 0x00, 0xb1]
  handlers := [⟨2, 6, 6, 0⟩, ⟨5, 8, 2, 2⟩]
  attributes := [⟨1, [0, 2, 0, 2, 0, 7, 0, 5, 0, 8]⟩, ⟨2, [0, 1, 0, 3, 0, 5, 0, 1, 0, 2, 0, 0]⟩,
    ⟨3, [0, 1, 0, 2, 0, 3, 0, 1, 0, 2, 0, 0]⟩]

theorem insert_tabledBody : tabledBody.insert tabledInsertions tabledPool = .ok tabledResult := by
  decide +kernel

/-- **The tables.** Handlers guard the instructions that they guarded, and the code in front of them if it captures what
pointed there; variables live where they lived; line numbers start at the new targets of their starts. No entry is lost,
added, or moved past another one. -/
theorem insert_tables {body body' : MethodBody} {insertions : List Insertion}
    (h : body.insert insertions pool = .ok body') :
    ∃ ss, Spliced insertions body.code body'.code ss ∧
      List.Forall₂ (Handler.Kept insertions ss body.code.length body'.code.length) body.handlers body'.handlers ∧
      (∀ name ∈ Attribute.variableNames, List.Forall₂ (OffsetTable.Kept LocalVariable.decode (LocalVariable.Kept ss))
        (body.attributes.filter (Member.isNamed pool name)) (body'.attributes.filter (Member.isNamed pool name))) ∧
      List.Forall₂ (OffsetTable.Kept LineNumber.decode
          (LineNumber.Moved (Splice.relocation ss body.code.length body'.code.length)))
        (body.attributes.filter (Member.isNamed pool Attribute.lineNumbersName))
        (body'.attributes.filter (Member.isNamed pool Attribute.lineNumbersName)) := by
  obtain ⟨ss, hspliced, -, htables⟩ := insert_eq_ok_iff.1 h
  refine ⟨ss, hspliced, ?_, ?_, ?_⟩
  · exact htables.handlers.imp fun g g' hg => hg.kept hspliced.chain
  · intro name hname
    exact htables.attributes.variables hspliced.chain hname
  · exact htables.attributes.lineNumbers

theorem insert_tables_tabledBody :
    ∃ ss, Spliced tabledInsertions tabledBody.code tabledResult.code ss ∧
      List.Forall₂ (Handler.Kept tabledInsertions ss tabledBody.code.length tabledResult.code.length)
        tabledBody.handlers tabledResult.handlers ∧
      (∀ name ∈ Attribute.variableNames, List.Forall₂ (OffsetTable.Kept LocalVariable.decode (LocalVariable.Kept ss))
        (tabledBody.attributes.filter (Member.isNamed tabledPool name))
        (tabledResult.attributes.filter (Member.isNamed tabledPool name))) ∧
      List.Forall₂ (OffsetTable.Kept LineNumber.decode
          (LineNumber.Moved (Splice.relocation ss tabledBody.code.length tabledResult.code.length)))
        (tabledBody.attributes.filter (Member.isNamed tabledPool Attribute.lineNumbersName))
        (tabledResult.attributes.filter (Member.isNamed tabledPool Attribute.lineNumbersName)) :=
  insert_tables insert_tabledBody

end MethodBody

end Registrar
