import Registrar.Proofs.Straight

/-!
# Bodies that code can be inserted into

* `MethodBody.Sound` : all that a body points at is in the body: its jumps, handlers, lines and variables lead to
  instructions or to the end of the code, its uninitialized types name instructions;
* `Relocation.Covers` : a relocation has a new place for each of these offsets. Then there is something that stands for
  each handler, entry and frame (`Attribute.exists_allMoved`), and for each instruction unless it is a branch whose
  target has become too far (`Instruction.relocate_of_leadsTo`);
* `MethodBody.error_of_sound` : what can go wrong when code is inserted into a sound body.
-/

namespace Registrar

/-! ## What a body points at -/

/-- There is an instruction at the offset. -/
def Placed.IsBoundary (code : List Placed) (o : Nat) : Prop := ∃ p ∈ code, p.offset = o

/-- There is an instruction at the offset, or the code of the given length ends there. -/
def Placed.IsTarget (code : List Placed) (length o : Nat) : Prop := o = length ∨ Placed.IsBoundary code o

section
variable (T B : Nat → Prop)

/-- All distances of an instruction lead to targets. -/
def Instruction.LeadsTo (offset : Nat) (i : Instruction) : Prop :=
  ∀ d ∈ i.distances, 0 ≤ (offset : Int) + d ∧ T ((offset : Int) + d).toNat

/-- The ends of the guarded range and the handler itself are targets. -/
def Handler.PointsAt (h : Handler) : Prop := T h.start.toNat ∧ T h.stop.toNat ∧ T h.target.toNat

/-- The first offset of a line is a target. -/
def LineNumber.PointsAt (l : LineNumber) : Prop := T l.start.toNat

/-- Both ends of the range of a variable are targets. -/
def LocalVariable.PointsAt (v : LocalVariable) : Prop := T v.start.toNat ∧ T (v.start.toNat + v.length.toNat)

/-- An uninitialized object is made by an instruction. -/
def VerificationType.PointsAt : VerificationType → Prop
  | .uninitialized o => B o.toNat
  | _ => True

/-- The types of a frame. -/
def FrameBody.types : FrameBody → List VerificationType
  | .same => []
  | .sameWithItem item => [item]
  | .chop _ => []
  | .append locals => locals
  | .full locals stack => locals ++ stack

/-- A frame describes a target, and its uninitialized types name instructions. -/
def Frame.PointsAt (f : Frame) : Prop := T f.offset ∧ ∀ t ∈ f.body.types, t.PointsAt B

/-- A table is complete, and so is each of its entries. -/
def OffsetTable.Complete {α : Type} (decode : Decoder α) (P : α → Prop) (content : List UInt8) : Prop :=
  ∃ entries rest, Decoder.counted decode content = .ok (entries, rest) ∧ ∀ e ∈ entries, P e

/-- A stack map is complete, and points at targets and instructions. -/
def StackMap.Complete (content : List UInt8) : Prop :=
  ∃ frames, StackMap.decode content = .ok frames ∧ ∀ f ∈ frames, f.PointsAt T B

/-- What the content of an attribute points at, by its name. -/
def Attribute.ContentPointsAt (name : String) (content : List UInt8) : Prop :=
  if name = "LineNumberTable" then OffsetTable.Complete LineNumber.decode (LineNumber.PointsAt T) content
  else if name ∈ variableNames then OffsetTable.Complete LocalVariable.decode (LocalVariable.PointsAt T) content
  else if name = stackMapName then StackMap.Complete T B content
  else True

/-- An attribute has a name, and points at targets and instructions. -/
def Attribute.PointsAt (pool : ConstantPool) (a : Attribute) : Prop :=
  ∃ name, pool.utf8 a.name = .ok name ∧ ContentPointsAt T B name a.content

end

instance (code : List Placed) : DecidablePred (Placed.IsBoundary code) :=
  fun o => inferInstanceAs (Decidable (∃ p ∈ code, p.offset = o))

instance (code : List Placed) (length : Nat) : DecidablePred (Placed.IsTarget code length) :=
  fun o => inferInstanceAs (Decidable (o = length ∨ Placed.IsBoundary code o))

section
variable {T B : Nat → Prop} [DecidablePred T] [DecidablePred B]

instance (offset : Nat) (i : Instruction) : Decidable (i.LeadsTo T offset) :=
  inferInstanceAs (Decidable (∀ d ∈ i.distances, 0 ≤ (offset : Int) + d ∧ T ((offset : Int) + d).toNat))

instance (h : Handler) : Decidable (h.PointsAt T) :=
  inferInstanceAs (Decidable (T h.start.toNat ∧ T h.stop.toNat ∧ T h.target.toNat))

instance : DecidablePred (VerificationType.PointsAt B)
  | .uninitialized o => inferInstanceAs (Decidable (B o.toNat))
  | .simple _ => inferInstanceAs (Decidable True)
  | .object _ => inferInstanceAs (Decidable True)

instance (f : Frame) : Decidable (f.PointsAt T B) :=
  inferInstanceAs (Decidable (T f.offset ∧ ∀ t ∈ f.body.types, t.PointsAt B))

end

/-- All that the body points at is in the body. -/
structure MethodBody.Sound (pool : ConstantPool) (body : MethodBody) (code : List Placed) : Prop where
  decoded : Placed.decodeAll body.code = .ok code
  distances : ∀ p ∈ code, p.instruction.LeadsTo (Placed.IsTarget code body.code.length) p.offset
  handlers : ∀ h ∈ body.handlers, h.PointsAt (Placed.IsTarget code body.code.length)
  attributes : ∀ a ∈ body.attributes, a.PointsAt (Placed.IsTarget code body.code.length) (Placed.IsBoundary code) pool

/-! ## What has a new place -/

/-- There are new places for targets and for instructions. -/
structure Relocation.Covers (R : Relocation) (T B : Nat → Prop) : Prop where
  target {t : Nat} : T t → ∃ t', R.target t t'
  instruction {o : Nat} : B o → ∃ o', R.instruction o o'

section
variable {R : Relocation} {T B : Nat → Prop}

theorem Relocation.Covers.target16 (hR : R.Fits) (h : R.Covers T B) {t : Nat} (ht : T t) :
    ∃ t' : UInt16, R.target t t'.toNat := by
  obtain ⟨t', ht'⟩ := h.target ht
  exact ⟨UInt16.ofNat t', by rwa [UInt16.toNat_ofNat_of_lt' (hR.target_lt ht')]⟩

theorem Relocation.Covers.instruction16 (hR : R.Fits) (h : R.Covers T B) {o : Nat} (ho : B o) :
    ∃ o' : UInt16, R.instruction o o'.toNat := by
  obtain ⟨o', ho'⟩ := h.instruction ho
  exact ⟨UInt16.ofNat o', by rwa [UInt16.toNat_ofNat_of_lt' (hR.instruction_lt ho')]⟩

variable (hR : R.Fits) (hcovers : R.Covers T B)
include hR hcovers

theorem Handler.exists_moved {h : Handler} (hh : h.PointsAt T) : ∃ h', Handler.Moved R h h' := by
  obtain ⟨start, hstart⟩ := hcovers.target16 hR hh.1
  obtain ⟨stop, hstop⟩ := hcovers.target16 hR hh.2.1
  obtain ⟨target, htarget⟩ := hcovers.target16 hR hh.2.2
  exact ⟨⟨start, stop, target, h.catchType⟩, hstart, hstop, htarget, rfl⟩

theorem LineNumber.exists_moved {l : LineNumber} (hl : l.PointsAt T) : ∃ l', LineNumber.Moved R l l' := by
  obtain ⟨start, hstart⟩ := hcovers.target16 hR hl
  exact ⟨⟨start, l.line⟩, hstart, rfl⟩

/-- The new ends of a range are in order and have 16 bits, so the new length has 16 bits too. -/
theorem LocalVariable.exists_moved {v : LocalVariable} (hv : v.PointsAt T) : ∃ v', LocalVariable.Moved R v v' := by
  obtain ⟨start, hstart⟩ := hcovers.target16 hR hv.1
  obtain ⟨stop, hstop⟩ := hcovers.target16 hR hv.2
  have hle := hR.target_mono hstart hstop (by omega)
  have hlength : (UInt16.ofNat (stop.toNat - start.toNat)).toNat = stop.toNat - start.toNat := by
    apply UInt16.toNat_ofNat_of_lt'
    have := stop.toNat_lt
    show stop.toNat - start.toNat < 2 ^ 16
    omega
  refine ⟨{ v with start, length := UInt16.ofNat (stop.toNat - start.toNat) }, hstart, ?_, rfl, rfl, rfl⟩
  rwa [hlength, show start.toNat + (stop.toNat - start.toNat) = stop.toNat by omega]

theorem VerificationType.exists_moved {t : VerificationType} (ht : t.PointsAt B) :
    ∃ t', VerificationType.Moved R.instruction t t' := by
  cases t with
  | simple tag => exact ⟨_, .simple tag⟩
  | object index => exact ⟨_, .object index⟩
  | uninitialized o =>
    obtain ⟨o', ho'⟩ := hcovers.instruction16 hR ht
    exact ⟨_, .uninitialized ho'⟩

theorem FrameBody.exists_moved {b : FrameBody} (hb : ∀ t ∈ b.types, t.PointsAt B) :
    ∃ b', FrameBody.Moved R.instruction b b' := by
  have hmoved := fun t ht => VerificationType.exists_moved hR hcovers (hb t ht)
  cases b with
  | same => exact ⟨_, .same⟩
  | sameWithItem item =>
    obtain ⟨item', hitem⟩ := hmoved item (by simp [types])
    exact ⟨_, .sameWithItem hitem⟩
  | chop count => exact ⟨_, .chop count⟩
  | append locals =>
    obtain ⟨locals', hlocals⟩ := List.exists_forall₂ hmoved
    exact ⟨_, .append hlocals⟩
  | full locals stack =>
    obtain ⟨locals', hlocals⟩ := List.exists_forall₂ fun t ht => hmoved t (List.mem_append_left stack ht)
    obtain ⟨stack', hstack⟩ := List.exists_forall₂ fun t ht => hmoved t (List.mem_append_right locals ht)
    exact ⟨_, .full hlocals hstack⟩

theorem Frame.exists_moved {f : Frame} (hf : f.PointsAt T B) : ∃ f', Frame.Moved R f f' := by
  obtain ⟨o, ho⟩ := hcovers.target hf.1
  obtain ⟨b, hb⟩ := FrameBody.exists_moved hR hcovers hf.2
  exact ⟨⟨o, b⟩, ho, hb⟩

theorem Attribute.exists_contentMoved {name : String} {content : List UInt8} (hname : name ∉ annotationNames)
    (h : ContentPointsAt T B name content) : ∃ content', ContentMoved R name content content' := by
  unfold ContentPointsAt at h
  unfold ContentMoved
  split_ifs at h ⊢ with hline hvariable hstack
  · obtain ⟨entries, rest, hentries, hall⟩ := h
    obtain ⟨entries', hmoved⟩ := List.exists_forall₂ fun e he => LineNumber.exists_moved hR hcovers (hall e he)
    exact ⟨_, entries, entries', rest, hentries, hmoved, rfl⟩
  · obtain ⟨entries, rest, hentries, hall⟩ := h
    obtain ⟨entries', hmoved⟩ := List.exists_forall₂ fun e he => LocalVariable.exists_moved hR hcovers (hall e he)
    exact ⟨_, entries, entries', rest, hentries, hmoved, rfl⟩
  · obtain ⟨frames, hframes, hall⟩ := h
    obtain ⟨frames', hmoved⟩ := List.exists_forall₂ fun f hf => Frame.exists_moved hR hcovers (hall f hf)
    exact ⟨_, frames, frames', hframes, hmoved, rfl⟩
  · exact ⟨content, hname, rfl⟩

theorem Attribute.exists_allMoved {pool : ConstantPool} : ∀ {as : List Attribute}, (∀ a ∈ as, a.PointsAt T B pool) →
    ∃ as', AllMoved pool R as as'
  | [], _ => ⟨[], .nil⟩
  | a :: as, h => by
    obtain ⟨as', has'⟩ := exists_allMoved fun b hb => h b (List.mem_cons_of_mem a hb)
    obtain ⟨name, hname, hcontent⟩ := h a (by simp)
    by_cases hannotation : name ∈ annotationNames
    · exact ⟨as', .dropped ⟨name, hannotation, hname⟩ has'⟩
    · obtain ⟨content', hmoved⟩ := exists_contentMoved hR hcovers hannotation hcontent
      exact ⟨{ a with content := content' } :: as', .kept ⟨name, hname, rfl, hmoved⟩ has'⟩

end

/-! ## Instructions -/

namespace Instruction

section
variable {R : Relocation} {T B : Nat → Prop} {old new : Nat}

theorem exists_leadsAlong (new : Nat) (hcovers : R.Covers T B) {d : Int} (hd : 0 ≤ (old : Int) + d ∧ T ((old : Int) + d).toNat) :
    ∃ m, LeadsAlong R.target old new d m := by
  obtain ⟨t', ht'⟩ := hcovers.target hd.2
  exact ⟨t' - new, _, t', by omega, by omega, ht'⟩

/-- Targets of 16 bits are never further than a distance of 32 bits. -/
theorem exists_leadsAlong32 (hR : R.Fits) (hcovers : R.Covers T B) (hnew : new < 0x10000) {d : Int}
    (hd : 0 ≤ (old : Int) + d ∧ T ((old : Int) + d).toNat) : ∃ m : Int32, LeadsAlong R.target old new d m.toInt := by
  obtain ⟨m, t, t', ht, hm, hT⟩ := exists_leadsAlong new hcovers hd
  have hlt := hR.target_lt hT
  refine ⟨Int32.ofInt m, t, t', ht, ?_, hT⟩
  rw [Int32.toInt_ofInt_of_le (by omega) (by omega)]
  exact hm

theorem LeadsAlong.unique (hR : R.Fits) {d m m' : Int} (h : LeadsAlong R.target old new d m)
    (h' : LeadsAlong R.target old new d m') : m = m' := by
  obtain ⟨t, t', ht, hm, hT⟩ := h
  obtain ⟨u, u', hu, hm', hU⟩ := h'
  obtain rfl : t = u := by omega
  have := hR.target_unique hT hU
  omega

/-- The branch with a 16-bit distance, if the instruction is one, can say how far its target is from its new place. -/
def Reaches (R : Relocation) (old new : Nat) (i : Instruction) : Prop :=
  ∀ opcode d, i = .branch opcode d → ∃ m, LeadsAlong R.target old new d.toInt m ∧ -0x8000 ≤ m ∧ m < 0x8000

theorem Moved.reaches {i i' : Instruction} (h : Moved R.target old new i i') : i.Reaches R old new := by
  rintro opcode d rfl
  cases h with
  | @branch _ _ d' hd => exact ⟨d'.toInt, hd, d'.le_toInt, d'.toInt_lt⟩

end

variable {layout : Layout} {T B : Nat → Prop} {old new : Nat}

/-- An instruction whose distances lead somewhere can be moved, unless it is a branch whose distance has become too
far. -/
theorem relocate_of_leadsTo (hfits : layout.relocation.Fits) (hcovers : layout.relocation.Covers T B)
    (hnew : new < 0x10000) {i : Instruction} (hi : i.LeadsTo T old) :
    (∃ i', i.relocate layout old new = .ok i') ∨
      ¬ i.Reaches layout.relocation old new ∧ ∃ tooLarge, i.relocate layout old new = .error (.distance16 tooLarge) := by
  have far : ∀ d ∈ i.distances, ∃ m : Int32, LeadsAlong layout.relocation.target old new d m.toInt :=
    fun d hd => exists_leadsAlong32 hfits hcovers hnew (hi d hd)
  cases i with
  | plain opcode operands => exact Or.inl ⟨_, rfl⟩
  | branch opcode d =>
    obtain ⟨m, hm⟩ := exists_leadsAlong new hcovers (hi d.toInt (by simp [distances]))
    have hreaches : (branch opcode d).Reaches layout.relocation old new → -0x8000 ≤ m ∧ m < 0x8000 := by
      intro h
      obtain ⟨m', hm', hrange⟩ := h opcode d rfl
      rwa [hm.unique hfits hm']
    have hrelocate : (branch opcode d).relocate layout old new =
        if m < -0x8000 then .error (.distance16 false) else if 0x8000 ≤ m then .error (.distance16 true)
        else .ok (.branch opcode (Int16.ofInt m)) := by
      simp only [relocate, relocateDistance_eq_ok_iff.2 hm]
      rfl
    rw [hrelocate]
    split_ifs with hlow hhigh
    · exact Or.inr ⟨fun h => by have := hreaches h; omega, false, rfl⟩
    · exact Or.inr ⟨fun h => by have := hreaches h; omega, true, rfl⟩
    · exact Or.inl ⟨_, rfl⟩
  | wideBranch opcode d =>
    obtain ⟨m, hm⟩ := far d.toInt (by simp [distances])
    exact Or.inl ⟨_, (relocate_eq_ok_iff hfits hnew).2 (.wideBranch hm)⟩
  | tableSwitch fallback low high ds =>
    obtain ⟨fallback', hfallback⟩ := far fallback.toInt (by simp [distances])
    obtain ⟨ds', hds⟩ := List.exists_forall₂ fun (d : Int32) (hd : d ∈ ds) =>
      far d.toInt (List.mem_cons_of_mem _ (List.mem_map_of_mem hd))
    exact Or.inl ⟨_, (relocate_eq_ok_iff hfits hnew).2 (.tableSwitch hfallback hds)⟩
  | lookupSwitch fallback count cases =>
    obtain ⟨fallback', hfallback⟩ := far fallback.toInt (by simp [distances])
    have hcase : ∀ c ∈ cases, ∃ c' : Int32 × Int32, c'.1 = c.1 ∧
        LeadsAlong layout.relocation.target old new c.2.toInt c'.2.toInt := by
      intro c hc
      obtain ⟨m, hm⟩ := far c.2.toInt (List.mem_cons_of_mem _ (List.mem_map_of_mem hc))
      exact ⟨(c.1, m), rfl, hm⟩
    obtain ⟨cases', hcases⟩ := List.exists_forall₂ hcase
    exact Or.inl ⟨_, (relocate_eq_ok_iff hfits hnew).2 (.lookupSwitch hfallback hcases)⟩

end Instruction

/-! ## Bodies -/

namespace Splice

/-- The splices of a code have new places for its instructions and for its end. -/
theorem covers_relocation (ss : List Splice) (e e' : Nat) :
    (relocation ss e e').Covers (Placed.IsTarget (ss.map (·.old)) e) (Placed.IsBoundary (ss.map (·.old))) where
  target := by
    rintro t (rfl | ⟨_, hp, rfl⟩)
    · exact ⟨e', Or.inl ⟨rfl, rfl⟩⟩
    · obtain ⟨s, hs, rfl⟩ := List.mem_map.1 hp
      exact ⟨s.target, Or.inr ⟨s, hs, rfl, rfl⟩⟩
  instruction := by
    rintro _ ⟨_, hp, rfl⟩
    obtain ⟨s, hs, rfl⟩ := List.mem_map.1 hp
    exact ⟨s.position, s, hs, rfl, rfl⟩

/-- The branch with a 16-bit distance, if the splice is one, can say how far its new target is. -/
def Reaches (R : Relocation) (s : Splice) : Prop := s.old.instruction.Reaches R s.old.offset s.position

end Splice

namespace MethodBody

variable {pool : ConstantPool} {body : MethodBody} {code : List Placed} {insertions : List Insertion}

/-- Moving the code fails on a branch whose distance has become too far, and on nothing else. -/
theorem relocateCode_of_leadsTo {e e' : Nat} {ss : List Splice} (h : Splice.Chain insertions 0 0 ss e e')
    (hlt : e' < 0x10000)
    (hdistances : ∀ s ∈ ss, s.old.instruction.LeadsTo (Placed.IsTarget (ss.map (·.old)) e) s.old.offset)
    {error : RelocationError} (herror : relocateCode (Insertion.groups insertions)
      (Layout.of (Insertion.groups insertions) e (ss.map (·.old))) (ss.map (·.old)) = .error error) :
    ∃ s ∈ ss, ¬ s.Reaches (Splice.relocation ss e e') ∧
      ∃ tooLarge, error = .at s.old.offset (.distance16 tooLarge) := by
  have hfits := h.fits hlt
  have hcovers := Splice.covers_relocation ss e e'
  have hslots : (Layout.of (Insertion.groups insertions) e (ss.map (·.old))).slots = ss.map Splice.slot := by
    rw [h.layout]
  rw [← h.relocation_layout] at hfits hcovers ⊢
  unfold relocateCode at herror
  rw [hslots, List.zip_map', Except.bind_eq_error_iff] at herror
  rcases herror with herror | ⟨_, -, hnone⟩
  · obtain ⟨_, hp, hplaced⟩ := Except.exists_of_mapM_eq_error herror
    obtain ⟨s, hs, rfl⟩ := List.mem_map.1 hp
    have hposition : s.position < 0x10000 := Nat.lt_trans (h.position_lt hs) hlt
    replace hplaced : relocatePlaced _ _ s.old s.slot = .error error := hplaced
    rw [relocatePlaced, show s.slot.position = s.position from rfl] at hplaced
    rcases Instruction.relocate_of_leadsTo hfits hcovers hposition (hdistances s hs) with ⟨i', hi'⟩ | ⟨hfar, b, hb⟩
    · rw [hi'] at hplaced
      cases hplaced
    · rw [hb] at hplaced
      cases hplaced
      exact ⟨s, hs, hfar, b, rfl⟩
  · cases hnone

section
variable {e' : Nat} {ss : List Splice}

/-- What is left of an insertion in front of instructions once the code is split. -/
theorem insert_eq (hcode : Placed.decodeAll body.code = .ok (ss.map (·.old)))
    (h : Splice.Chain insertions 0 0 ss body.code.length e')
    (hplaced : ∀ i ∈ insertions, ∃ s ∈ ss, s.old.offset = i.offset) :
    body.insert insertions pool = if maxCodeLength < e' then .error (.codeTooLong e') else do
      let groups := Insertion.groups insertions
      let layout := Layout.of groups body.code.length (ss.map (·.old))
      let moved ← relocateCode groups layout (ss.map (·.old))
      let handlers ← body.handlers.mapM (·.relocate layout)
      let attributes ← body.attributes.mapM (relocateAttribute pool layout)
      return { body with code := moved, handlers, attributes := attributes.filterMap id } := by
  have hlength : (Layout.of (Insertion.groups insertions) body.code.length (ss.map (·.old))).newLength = e' := by
    rw [h.layout]
  unfold insert
  rw [hcode]
  simp only [Except.mapError, bind, Except.bind, h.misplaced?_eq_none_iff.2 hplaced, hlength]
  split_ifs <;> rfl

/-- An insertion into a sound body that does not make the code too long fails on a branch whose distance has become too
far, and on nothing else: the tables can always be moved. -/
theorem error_of_sound (hsound : body.Sound pool (ss.map (·.old)))
    (h : Splice.Chain insertions 0 0 ss body.code.length e')
    (hplaced : ∀ i ∈ insertions, ∃ s ∈ ss, s.old.offset = i.offset) (hlength : e' ≤ maxCodeLength)
    {error : RelocationError} (herror : body.insert insertions pool = .error error) :
    ∃ s ∈ ss, ¬ s.Reaches (Splice.relocation ss body.code.length e') ∧
      ∃ tooLarge, error = .at s.old.offset (.distance16 tooLarge) := by
  have hlt : e' < 0x10000 := Nat.lt_succ_of_le hlength
  have hfits := h.fits hlt
  have hcovers := Splice.covers_relocation ss body.code.length e'
  rw [← h.relocation_layout] at hfits hcovers
  obtain ⟨handlers, hhandlers⟩ := List.exists_forall₂ fun g hg =>
    Handler.exists_moved hfits hcovers (hsound.handlers g hg)
  obtain ⟨attributes, hattributes⟩ := Attribute.exists_allMoved hfits hcovers hsound.attributes
  obtain ⟨results, hresults, -⟩ := (relocateAttributes_eq_ok_iff hfits).2 hattributes
  have hhandlers : body.handlers.mapM
      (·.relocate (Layout.of (Insertion.groups insertions) body.code.length (ss.map (·.old)))) = .ok handlers := by
    rw [Except.mapM_eq_ok_iff]
    exact hhandlers.imp fun _ _ => Handler.relocate_eq_ok_iff.2
  rw [insert_eq hsound.decoded h hplaced, if_neg (Nat.not_lt.2 hlength), Except.bind_eq_error_iff] at herror
  rcases herror with herror | ⟨_, -, herror⟩
  · refine relocateCode_of_leadsTo h hlt (fun s hs => ?_) herror
    exact hsound.distances s.old (List.mem_map_of_mem hs)
  · rw [hhandlers] at herror
    simp only [bind, Except.bind, hresults] at herror
    cases herror

end

/-- **Acceptance.** Code is inserted in front of instructions of a sound body just when the code does not become too
long and all branches with 16-bit distances still reach their targets. Nothing else is an error: not in the exception
table, nor in the tables of lines and variables, nor in the stack map. -/
theorem insert_ok_iff_of_sound (hsound : body.Sound pool code)
    (hplaced : ∀ i ∈ insertions, Placed.IsBoundary code i.offset) :
    ∃ ss e', Splice.Chain insertions 0 0 ss body.code.length e' ∧ ss.map (·.old) = code ∧
      ((∃ body', body.insert insertions pool = .ok body') ↔
        e' ≤ maxCodeLength ∧ ∀ s ∈ ss, s.Reaches (Splice.relocation ss body.code.length e')) ∧
      (∀ body', body.insert insertions pool = .ok body' → body'.code.length = e') ∧
      ∀ error, body.insert insertions pool = .error error →
        maxCodeLength < e' ∧ error = .codeTooLong e' ∨
          e' ≤ maxCodeLength ∧ ∃ s ∈ ss, ¬ s.Reaches (Splice.relocation ss body.code.length e') ∧
            ∃ tooLarge, error = .at s.old.offset (.distance16 tooLarge) := by
  cases hinsert : body.insert insertions pool with
  | ok body' =>
    obtain ⟨ss, hspliced, hlength, -⟩ := insert_eq_ok_iff.1 hinsert
    have hcode := hspliced.decoded
    rw [hsound.decoded] at hcode
    cases hcode
    refine ⟨ss, body'.code.length, hspliced.chain, rfl, ?_, ?_, ?_⟩
    · exact iff_of_true ⟨body', rfl⟩ ⟨hlength, fun s hs => (hspliced.moved s hs).reaches⟩
    · rintro _ ⟨⟩
      rfl
    · rintro _ ⟨⟩
  | error error =>
    obtain ⟨ss, e', hchain, rfl⟩ :=
      Splice.Chain.exists_of_tiles insertions (Placed.decodeAll_eq_ok_iff.1 hsound.decoded) 0
    rw [Nat.zero_add] at hchain
    have hplaced : ∀ i ∈ insertions, ∃ s ∈ ss, s.old.offset = i.offset := by
      intro i hi
      obtain ⟨_, hp, hoffset⟩ := hplaced i hi
      obtain ⟨s, hs, rfl⟩ := List.mem_map.1 hp
      exact ⟨s, hs, hoffset⟩
    refine ⟨ss, e', hchain, rfl, ?_⟩
    by_cases hlength : e' ≤ maxCodeLength
    · obtain ⟨s, hs, hfar, hcause⟩ := error_of_sound hsound hchain hplaced hlength hinsert
      refine ⟨iff_of_false (by rintro ⟨_, ⟨⟩⟩) fun h => hfar (h.2 s hs), by rintro _ ⟨⟩, ?_⟩
      rintro _ ⟨⟩
      exact Or.inr ⟨hlength, s, hs, hfar, hcause⟩
    · rw [insert_eq hsound.decoded hchain hplaced, if_pos (Nat.lt_of_not_le hlength)] at hinsert
      cases hinsert
      refine ⟨iff_of_false (by rintro ⟨_, ⟨⟩⟩) fun h => hlength h.1, by rintro _ ⟨⟩, ?_⟩
      rintro _ ⟨⟩
      exact Or.inl ⟨Nat.lt_of_not_le hlength, rfl⟩

/-- The instructions of the body that jumps. -/
def jumpingCode : List Placed := [⟨0, .branch 0xa7 4⟩, ⟨3, .plain 0x00 []⟩, ⟨4, .plain 0xb1 []⟩]

theorem sound_jumpingBody : jumpingBody.Sound jumpingPool jumpingCode where
  decoded := by decide +kernel
  distances := by decide
  handlers := by decide
  attributes := by
    intro a ha
    obtain rfl := List.mem_singleton.1 ha
    refine ⟨Attribute.stackMapName, by decide +kernel, ?_⟩
    exact ⟨[⟨3, .same⟩, ⟨4, .sameWithItem (.uninitialized 3)⟩], by decide +kernel, by decide⟩

theorem insert_ok_iff_jumpingBody : ∃ ss, Splice.Chain jumpingInsertions 0 0 ss 5 9 ∧ ss.map (·.old) = jumpingCode ∧
    ∀ s ∈ ss, s.Reaches (Splice.relocation ss 5 9) := by
  have hplaced : ∀ i ∈ jumpingInsertions, Placed.IsBoundary jumpingCode i.offset := by decide
  obtain ⟨ss, e', hchain, hold, hiff, hlength, -⟩ := insert_ok_iff_of_sound sound_jumpingBody hplaced
  obtain rfl : 9 = e' := hlength _ insert_jumpingBody
  exact ⟨ss, hchain, hold, (hiff.1 ⟨_, insert_jumpingBody⟩).2⟩

end MethodBody

end Registrar
