import Registrar.Proofs.Reading
import Registrar.Proofs.Relocation

/-!
# Moved tables

Exception handlers, line numbers and local variables under a relocation.

* `Handler.Moved`, `LineNumber.Moved`, `LocalVariable.Moved` : an entry and what stands for it in the moved code;
* `OffsetTable.Moved` : the content of a table of such entries and its moved content;
* `relocate_eq_ok_iff`, `relocateLineNumbers_eq_ok_iff`, `relocateLocalVariables_eq_ok_iff` : the model moves tables so;
* `Moved.trans` : moving twice moves along the composition.
-/

namespace Registrar

/-! ## Entries -/

/-- A handler and what stands for it: the ends of the range and the handler itself are moved as targets. -/
structure Handler.Moved (R : Relocation) (h h' : Handler) : Prop where
  start : R.target h.start.toNat h'.start.toNat
  stop : R.target h.stop.toNat h'.stop.toNat
  target : R.target h.target.toNat h'.target.toNat
  catchType : h'.catchType = h.catchType

/-- A line number and what stands for it. -/
structure LineNumber.Moved (R : Relocation) (l l' : LineNumber) : Prop where
  start : R.target l.start.toNat l'.start.toNat
  line : l'.line = l.line

/-- A local variable and what stands for it: both ends of its range are moved as targets. -/
structure LocalVariable.Moved (R : Relocation) (v v' : LocalVariable) : Prop where
  start : R.target v.start.toNat v'.start.toNat
  stop : R.target (v.start.toNat + v.length.toNat) (v'.start.toNat + v'.length.toNat)
  name : v'.name = v.name
  descriptor : v'.descriptor = v.descriptor
  slot : v'.slot = v.slot

section
variable {R S : Relocation} {layout : Layout}

theorem Handler.relocate_eq_ok_iff {h h' : Handler} :
    h.relocate layout = .ok h' ↔ Handler.Moved layout.relocation h h' := by
  simp only [Handler.relocate, Except.bind_eq_ok_iff, Except.pure_eq_ok_iff, Layout.target16_eq_ok_iff]
  constructor
  · rintro ⟨start, hstart, stop, hstop, target, htarget, rfl⟩
    exact ⟨hstart, hstop, htarget, rfl⟩
  · rintro ⟨hstart, hstop, htarget, hcatch⟩
    exact ⟨_, hstart, _, hstop, _, htarget, by rw [← hcatch]⟩

theorem LineNumber.relocate_eq_ok_iff {l l' : LineNumber} :
    l.relocate layout = .ok l' ↔ LineNumber.Moved layout.relocation l l' := by
  simp only [LineNumber.relocate, Except.bind_eq_ok_iff, Except.pure_eq_ok_iff, Layout.target16_eq_ok_iff]
  constructor
  · rintro ⟨start, hstart, rfl⟩
    exact ⟨hstart, rfl⟩
  · rintro ⟨hstart, hline⟩
    exact ⟨_, hstart, by rw [← hline]⟩

/-- The ends of a range stay in order, so that the new length is the distance of the new ends. -/
theorem LocalVariable.relocate_eq_ok_iff (hfits : layout.relocation.Fits) {v v' : LocalVariable} :
    v.relocate layout = .ok v' ↔ LocalVariable.Moved layout.relocation v v' := by
  simp only [LocalVariable.relocate, Except.bind_eq_ok_iff, Except.pure_eq_ok_iff, Layout.narrow_eq_ok_iff]
  constructor
  · rintro ⟨a, ha, b, hb, start, rfl, length, hlength, rfl⟩
    have hab := hfits.target_mono ha hb (Nat.le_add_right _ _)
    refine ⟨ha, ?_, rfl, rfl, rfl⟩
    rw [show start.toNat + length.toNat = b by omega]
    exact hb
  · rintro ⟨hstart, hstop, hname, hdescriptor, hslot⟩
    exact ⟨_, hstart, _, hstop, _, rfl, v'.length, Nat.add_sub_cancel_left _ _,
      by rw [← hname, ← hdescriptor, ← hslot]⟩

theorem Handler.Moved.trans {h h' h'' : Handler} (a : Handler.Moved R h h') (b : Handler.Moved S h' h'') :
    Handler.Moved (R.comp S) h h'' :=
  ⟨⟨_, a.start, b.start⟩, ⟨_, a.stop, b.stop⟩, ⟨_, a.target, b.target⟩, b.catchType.trans a.catchType⟩

theorem LineNumber.Moved.trans {l l' l'' : LineNumber} (a : LineNumber.Moved R l l') (b : LineNumber.Moved S l' l'') :
    LineNumber.Moved (R.comp S) l l'' :=
  ⟨⟨_, a.start, b.start⟩, b.line.trans a.line⟩

theorem LocalVariable.Moved.trans {v v' v'' : LocalVariable} (a : LocalVariable.Moved R v v')
    (b : LocalVariable.Moved S v' v'') : LocalVariable.Moved (R.comp S) v v'' :=
  ⟨⟨_, a.start, b.start⟩, ⟨_, a.stop, b.stop⟩, b.name.trans a.name, b.descriptor.trans a.descriptor,
    b.slot.trans a.slot⟩

end

/-! ## Tables -/

theorem LineNumber.reads_decode : LineNumber.decode.Reads (Decoder.Spelled (fun _ => True) LineNumber.encode) :=
  (Decoder.reads_u16.field LineNumber.start
    (fun start => Decoder.reads_u16.last (fun line => (⟨start, line⟩ : LineNumber)) LineNumber.line
      fun _ => rfl) (by rintro _ _ ⟨-, h⟩; rw [h])).respell (by simp) fun _ => rfl

theorem LocalVariable.reads_decode :
    LocalVariable.decode.Reads (Decoder.Spelled (fun _ => True) LocalVariable.encode) := by
  refine (Decoder.reads_u16.field LocalVariable.start (fun start =>
    Decoder.reads_u16.field LocalVariable.length (fun length =>
      Decoder.reads_u16.field LocalVariable.name (fun name =>
        Decoder.reads_u16.field LocalVariable.descriptor (fun descriptor =>
          Decoder.reads_u16.last (fun slot => (⟨start, length, name, descriptor, slot⟩ : LocalVariable))
            LocalVariable.slot fun _ => rfl) ?_) ?_) ?_) ?_).respell ?_ fun _ => rfl
  · rintro _ _ ⟨-, h⟩; rw [h]
  · rintro _ _ ⟨-, -, h⟩; rw [h]
  · rintro _ _ ⟨-, -, -, h⟩; rw [h]
  · rintro _ _ ⟨-, -, -, -, h⟩; rw [h]
  · simp

namespace OffsetTable

variable {α : Type}

/-- The content of a counted table and the content that stands for it, whose entries stand for the old ones in order.
What follows the entries is not kept. -/
def Moved (decode : Decoder α) (encode : α → List UInt8) (M : α → α → Prop) (content content' : List UInt8) : Prop :=
  ∃ entries entries' rest, Decoder.counted decode content = .ok (entries, rest) ∧ List.Forall₂ M entries entries' ∧
    content' = count16 entries'.length ++ entries'.flatMap encode

theorem relocateOnto_eq_ok_iff {decode : Decoder α} {move : α → Except RelocationError (List UInt8)} {n : Nat}
    {found : List (List UInt8)} {input out : List UInt8} :
    relocateOnto decode move n found input = .ok out ↔
      ∃ entries parts rest, Decoder.times n decode input = .ok (entries, rest) ∧
        List.Forall₂ (fun e part => move e = .ok part) entries parts ∧
        out = found.reverse.flatten ++ parts.flatten := by
  induction n generalizing found input with
  | zero =>
    simp only [relocateOnto, Decoder.times, Decoder.timesOnto, Except.ok.injEq, Prod.mk.injEq]
    constructor
    · rintro rfl
      exact ⟨[], [], input, ⟨rfl, rfl⟩, .nil, by simp⟩
    · rintro ⟨_, _, _, ⟨rfl, rfl⟩, h, rfl⟩
      cases h
      simp
  | succ n ih =>
    rw [Decoder.times_succ]
    simp only [relocateOnto, Decoder.bind_eq_ok_iff]
    constructor
    · intro h
      split at h
      · cases h
      · next entry rest hentry =>
        split at h
        · cases h
        · next bytes hbytes =>
          obtain ⟨entries, parts, rest', htimes, hparts, rfl⟩ := ih.1 h
          exact ⟨entry :: entries, bytes :: parts, rest', ⟨entry, rest, hentry, entries, rest', htimes, rfl⟩,
            .cons hbytes hparts, by simp⟩
    · rintro ⟨_, parts, rest', ⟨entry, rest, hentry, entries, _, htimes, hpure⟩, hparts, rfl⟩
      cases hpure
      cases hparts with
      | cons hbytes hparts =>
        simp only [hentry, hbytes]
        exact ih.2 ⟨entries, _, rest', htimes, hparts, by simp⟩

theorem relocate_eq_ok_iff {decode : Decoder α} {encode : α → List UInt8} {M : α → α → Prop}
    {move : α → Except RelocationError α} (hmove : ∀ e e', move e = .ok e' ↔ M e e') {content content' : List UInt8} :
    relocate decode (fun e => (move e).map encode) content = .ok content' ↔ Moved decode encode M content content' := by
  have hparts : ∀ entries parts, List.Forall₂ (fun e part => (move e).map encode = .ok part) entries parts ↔
      ∃ entries', List.Forall₂ M entries entries' ∧ parts = entries'.map encode := by
    intro entries parts
    simp only [Except.map_eq_ok_iff, hmove, eq_comm (a := encode _)]
    constructor
    · intro h
      induction h with
      | nil => exact ⟨[], .nil, rfl⟩
      | cons he _ ih =>
        obtain ⟨e', he', rfl⟩ := he
        obtain ⟨entries', hentries', rfl⟩ := ih
        exact ⟨e' :: entries', .cons he' hentries', rfl⟩
    · rintro ⟨entries', h, rfl⟩
      rw [List.forall₂_map_right_iff]
      exact h.imp fun e e' he => ⟨e', he, rfl⟩
  simp only [relocate, Moved, Decoder.counted, Decoder.bind_eq_ok_iff]
  constructor
  · intro h
    split at h
    · cases h
    · next count rest hcount =>
      split at h
      · cases h
      · next bytes hbytes =>
        cases h
        obtain ⟨entries, parts, rest', htimes, hp, rfl⟩ := relocateOnto_eq_ok_iff.1 hbytes
        obtain ⟨entries', hentries', rfl⟩ := (hparts entries parts).1 hp
        refine ⟨entries, entries', rest', ⟨count, rest, hcount, htimes⟩, hentries', ?_⟩
        have hlen : entries.length = count.toNat := Decoder.length_of_times htimes
        rw [← hentries'.length_eq, hlen, Decoder.count16_toNat, List.flatMap_def]
        rfl
  · rintro ⟨entries, entries', rest', ⟨count, rest, hcount, htimes⟩, hentries', rfl⟩
    have hlen : entries.length = count.toNat := Decoder.length_of_times htimes
    have hmap : relocateOnto decode (fun e => (move e).map encode) count.toNat [] rest =
        .ok (entries'.map encode).flatten :=
      relocateOnto_eq_ok_iff.2 ⟨entries, _, rest', htimes, (hparts entries _).2 ⟨entries', hentries', rfl⟩, rfl⟩
    simp only [hcount, hmap]
    rw [← hentries'.length_eq, hlen, Decoder.count16_toNat, List.flatMap_def]

theorem relocateLineNumbers_eq_ok_iff {layout : Layout} {content content' : List UInt8} :
    relocateLineNumbers layout content = .ok content' ↔
      Moved LineNumber.decode LineNumber.encode (LineNumber.Moved layout.relocation) content content' :=
  relocate_eq_ok_iff fun _ _ => LineNumber.relocate_eq_ok_iff

theorem relocateLocalVariables_eq_ok_iff {layout : Layout} (hfits : layout.relocation.Fits)
    {content content' : List UInt8} :
    relocateLocalVariables layout content = .ok content' ↔
      Moved LocalVariable.decode LocalVariable.encode (LocalVariable.Moved layout.relocation) content content' :=
  relocate_eq_ok_iff fun _ _ => LocalVariable.relocate_eq_ok_iff hfits

/-- The moved content decodes to the moved entries. -/
theorem Moved.decode_moved {decode : Decoder α} {encode : α → List UInt8} {M : α → α → Prop}
    (hdecode : decode.Reads (Decoder.Spelled (fun _ => True) encode)) {content content' : List UInt8}
    (h : Moved decode encode M content content') :
    ∃ entries entries' rest, Decoder.counted decode content = .ok (entries, rest) ∧
      Decoder.counted decode content' = .ok (entries', []) ∧ List.Forall₂ M entries entries' := by
  obtain ⟨entries, entries', rest, hentries, hmoved, rfl⟩ := h
  obtain ⟨_, ⟨⟨hlen, -⟩, -⟩, -⟩ := (Decoder.Reads.counted_spelled hdecode).sound hentries
  refine ⟨entries, entries', rest, hentries, ?_, hmoved⟩
  have hlen' : entries'.length < 0x10000 := hmoved.length_eq ▸ hlen
  have := (Decoder.Reads.counted_spelled hdecode).complete ⟨⟨hlen', fun _ _ => trivial⟩, rfl⟩ []
  rwa [List.append_nil] at this

theorem Moved.trans {decode : Decoder α} {encode : α → List UInt8} {M N Q : α → α → Prop}
    (hdecode : decode.Reads (Decoder.Spelled (fun _ => True) encode)) (hQ : ∀ a b c, M a b → N b c → Q a c)
    {content content' content'' : List UInt8} (h : Moved decode encode M content content')
    (h' : Moved decode encode N content' content'') : Moved decode encode Q content content'' := by
  obtain ⟨entries, entries', rest, hentries, hentries', hmoved⟩ := h.decode_moved hdecode
  obtain ⟨_, entries'', rest', hread, hmoved', rfl⟩ := h'
  rw [hentries'] at hread
  cases hread
  exact ⟨entries, entries'', rest, hentries, List.forall₂_trans_of hQ hmoved hmoved', rfl⟩

end OffsetTable

end Registrar
