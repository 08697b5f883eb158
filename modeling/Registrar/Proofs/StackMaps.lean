import Registrar.Proofs.Reading
import Registrar.Proofs.Relocation

/-!
# Stack maps

The stored form of a stack map, independent of the functions that read and move it, and what moving does to it.

* `StoredFrame` : the seven ways to store a frame, each with its distance and its body;
* `StackMap.offsets` : the first frame stands at its distance, a later one that much and one more behind the frame
  before it;
* `StackMap.Holds` : what frames a stack map holds. `StackMap.decode_eq_ok_iff` : `decode` gives just those;
* `Frame.Moved` : a frame and what stands for it, its offset moved as a target, its uninitialized types as instructions;
* `StackMap.spell` : frames stored again, each in the compact form where its distance fits;
* `StackMap.relocate_eq_ok_iff` : a stack map is moved frame by frame.
-/

namespace Registrar

/-! ## Types -/

namespace VerificationType

/-- The tag of a simple type is one of those that say all about the type. -/
def WellTagged : VerificationType → Prop
  | .simple tag => tag ≤ 6
  | _ => True

theorem reads_decode : VerificationType.decode.Reads (Decoder.Spelled WellTagged encode) := by
  have item (make : UInt16 → VerificationType) := fun v : UInt16 => Decoder.reads_pure (make v)
  intro input t rest
  constructor
  · intro h
    obtain ⟨tag, mid, htag, hmid⟩ := Decoder.bind_eq_ok_iff.1 h
    obtain ⟨_, ⟨-, rfl⟩, rfl⟩ := Decoder.reads_u8.sound htag
    split_ifs at hmid with h6 h7 h8
    · cases hmid
      exact ⟨_, ⟨h6, rfl⟩, rfl⟩
    · obtain ⟨_, ⟨v, _, _, ⟨-, rfl⟩, ⟨rfl, rfl⟩, rfl⟩, rfl⟩ := (Decoder.reads_u16.bind (item .object)).sound hmid
      exact ⟨_, ⟨trivial, rfl⟩, by simp [encode, h7]⟩
    · obtain ⟨_, ⟨v, _, _, ⟨-, rfl⟩, ⟨rfl, rfl⟩, rfl⟩, rfl⟩ :=
        (Decoder.reads_u16.bind (item .uninitialized)).sound hmid
      exact ⟨_, ⟨trivial, rfl⟩, by simp [encode, h8]⟩
    · cases hmid
  · rintro ⟨_, ⟨ht, rfl⟩, rfl⟩
    cases t with
    | simple tag =>
      refine Decoder.bind_eq_ok_iff.2 ⟨tag, rest, rfl, ?_⟩
      rw [if_pos (show tag ≤ 6 from ht)]
      rfl
    | object v =>
      refine Decoder.bind_eq_ok_iff.2 ⟨7, bytes16 v ++ rest, rfl, ?_⟩
      rw [if_neg (by decide), if_pos rfl]
      exact Decoder.bind_eq_ok_iff.2 ⟨v, rest, Decoder.u16_encode v rest, rfl⟩
    | uninitialized v =>
      refine Decoder.bind_eq_ok_iff.2 ⟨8, bytes16 v ++ rest, rfl, ?_⟩
      rw [if_neg (by decide), if_neg (by decide), if_pos rfl]
      exact Decoder.bind_eq_ok_iff.2 ⟨v, rest, Decoder.u16_encode v rest, rfl⟩

/-- A type and what stands for it: an uninitialized object follows the instruction that makes it. -/
inductive Moved (I : Nat → Nat → Prop) : VerificationType → VerificationType → Prop
  | simple (tag : UInt8) : Moved I (.simple tag) (.simple tag)
  | object (index : UInt16) : Moved I (.object index) (.object index)
  | uninitialized {o o' : UInt16} : I o.toNat o'.toNat → Moved I (.uninitialized o) (.uninitialized o')

theorem relocate_eq_ok_iff {layout : Layout} {t t' : VerificationType} :
    t.relocate layout = .ok t' ↔ Moved layout.relocation.instruction t t' := by
  constructor
  · intro h
    cases t with
    | simple tag =>
      cases h
      exact .simple tag
    | object index =>
      cases h
      exact .object index
    | uninitialized o =>
      simp only [relocate, Except.bind_eq_ok_iff, Except.pure_eq_ok_iff, Layout.narrow_eq_ok_iff] at h
      obtain ⟨_, ho, o', rfl, rfl⟩ := h
      exact .uninitialized ho
  · intro h
    cases h with
    | simple | object => rfl
    | uninitialized ho =>
      simp only [relocate, Except.bind_eq_ok_iff, Except.pure_eq_ok_iff, Layout.narrow_eq_ok_iff]
      exact ⟨_, ho, _, rfl, rfl⟩

theorem Moved.wellTagged {I : Nat → Nat → Prop} {t t' : VerificationType} (h : Moved I t t') (ht : t.WellTagged) :
    t'.WellTagged := by
  cases h <;> exact ht

end VerificationType

/-! ## Stored frames -/

/-- How a frame is stored: its first byte says which form it has, and in the compact forms also the distance. -/
inductive StoredFrame : Decoder.Grammar (Nat × FrameBody)
  | same {kind : UInt8} : kind.toNat ≤ 63 → StoredFrame (kind.toNat, .same) [kind]
  | sameWithItem {kind : UInt8} {item : VerificationType} : 64 ≤ kind.toNat → kind.toNat ≤ 127 → item.WellTagged →
      StoredFrame (kind.toNat - 64, .sameWithItem item) (kind :: item.encode)
  | sameWithItemExtended {distance : UInt16} {item : VerificationType} : item.WellTagged →
      StoredFrame (distance.toNat, .sameWithItem item) (247 :: (bytes16 distance ++ item.encode))
  | chop {kind : UInt8} {distance : UInt16} : 248 ≤ kind.toNat → kind.toNat ≤ 250 →
      StoredFrame (distance.toNat, .chop (251 - kind)) (kind :: bytes16 distance)
  | sameExtended {distance : UInt16} : StoredFrame (distance.toNat, .same) (251 :: bytes16 distance)
  | append {kind : UInt8} {distance : UInt16} {locals : List VerificationType} : 252 ≤ kind.toNat →
      kind.toNat ≤ 254 → locals.length = kind.toNat - 251 → (∀ t ∈ locals, t.WellTagged) →
      StoredFrame (distance.toNat, .append locals)
        (kind :: (bytes16 distance ++ locals.flatMap VerificationType.encode))
  | full {distance : UInt16} {locals stack : List VerificationType} : locals.length < 0x10000 →
      stack.length < 0x10000 → (∀ t ∈ locals, t.WellTagged) → (∀ t ∈ stack, t.WellTagged) →
      StoredFrame (distance.toNat, .full locals stack)
        (255 :: (bytes16 distance ++ ((count16 locals.length ++ locals.flatMap VerificationType.encode) ++
          (count16 stack.length ++ stack.flatMap VerificationType.encode))))

namespace FrameBody

theorem reads_types (n : Nat) : (Decoder.times n VerificationType.decode).Reads
    (Decoder.Spelled (fun ts => ts.length = n ∧ ∀ t ∈ ts, t.WellTagged) (List.flatMap VerificationType.encode)) := by
  refine (VerificationType.reads_decode.times n).congr fun ts raw => ?_
  simp only [Decoder.Listed, Decoder.forall₂_spelled, Decoder.Spelled, List.flatMap_def]
  constructor
  · rintro ⟨hl, _, ⟨hok, rfl⟩, rfl⟩
    exact ⟨⟨hl, hok⟩, rfl⟩
  · rintro ⟨⟨hl, hok⟩, rfl⟩
    exact ⟨hl, _, ⟨hok, rfl⟩, rfl⟩

section
variable {kind : UInt8}

theorem sound_decode {input rest : List UInt8} {frame : Nat × FrameBody}
    (h : FrameBody.decode kind input = .ok (frame, rest)) :
    ∃ raw, StoredFrame frame (kind :: raw) ∧ input = raw ++ rest := by
  unfold FrameBody.decode at h
  simp only [UInt8.le_iff_toNat_le, ← UInt8.toNat_inj, UInt8.reduceToNat] at h
  have hkind : ∀ n : UInt8, kind.toNat = n.toNat → kind = n := fun _ => UInt8.toNat_inj.1
  split_ifs at h with h63 h127 h246 h247 h250 h251 h254
  · cases h
    exact ⟨[], .same h63, rfl⟩
  · obtain ⟨_, ⟨item, _, _, ⟨hok, rfl⟩, ⟨rfl, rfl⟩, rfl⟩, rfl⟩ :=
      (VerificationType.reads_decode.bind fun item => Decoder.reads_pure (kind.toNat - 64, sameWithItem item)).sound h
    rw [List.append_nil]
    exact ⟨_, .sameWithItem (by omega) h127 hok, rfl⟩
  · cases h
  · obtain rfl := hkind 247 h247
    obtain ⟨_, ⟨d, _, _, ⟨-, rfl⟩, ⟨item, _, _, ⟨hok, rfl⟩, ⟨rfl, rfl⟩, rfl⟩, rfl⟩, rfl⟩ :=
      (Decoder.reads_u16.bind fun d => VerificationType.reads_decode.bind fun item =>
        Decoder.reads_pure (d.toNat, sameWithItem item)).sound h
    rw [List.append_nil]
    exact ⟨_, .sameWithItemExtended hok, rfl⟩
  · obtain ⟨_, ⟨d, _, _, ⟨-, rfl⟩, ⟨rfl, rfl⟩, rfl⟩, rfl⟩ :=
      (Decoder.reads_u16.bind fun d => Decoder.reads_pure (d.toNat, chop (251 - kind))).sound h
    rw [List.append_nil]
    exact ⟨_, .chop (by omega) h250, rfl⟩
  · obtain rfl := hkind 251 h251
    obtain ⟨_, ⟨d, _, _, ⟨-, rfl⟩, ⟨rfl, rfl⟩, rfl⟩, rfl⟩ :=
      (Decoder.reads_u16.bind fun d => Decoder.reads_pure (d.toNat, same)).sound h
    rw [List.append_nil]
    exact ⟨_, .sameExtended, rfl⟩
  · obtain ⟨_, ⟨d, _, _, ⟨-, rfl⟩, ⟨locals, _, _, ⟨⟨hl, hok⟩, rfl⟩, ⟨rfl, rfl⟩, rfl⟩, rfl⟩, rfl⟩ :=
      (Decoder.reads_u16.bind fun d => (reads_types (kind.toNat - 251)).bind fun locals =>
        Decoder.reads_pure (d.toNat, append locals)).sound h
    rw [List.append_nil]
    exact ⟨_, .append (by omega) h254 hl hok, rfl⟩
  · obtain rfl := hkind 255 (by have := kind.toNat_lt; simp only [UInt8.reduceToNat]; omega)
    obtain ⟨_, ⟨d, _, _, ⟨-, rfl⟩, ⟨locals, _, _, ⟨⟨hl, hok⟩, rfl⟩, ⟨stack, _, _, ⟨⟨hl', hok'⟩, rfl⟩, ⟨rfl, rfl⟩,
        rfl⟩, rfl⟩, rfl⟩, rfl⟩ :=
      (Decoder.reads_u16.bind fun d => VerificationType.reads_decode.counted_spelled.bind fun locals =>
        VerificationType.reads_decode.counted_spelled.bind fun stack =>
          Decoder.reads_pure (d.toNat, full locals stack)).sound h
    rw [List.append_nil]
    exact ⟨_, .full hl hl' hok hok', rfl⟩

theorem complete_decode {frame : Nat × FrameBody} {raw : List UInt8} (h : StoredFrame frame (kind :: raw))
    (rest : List UInt8) : FrameBody.decode kind (raw ++ rest) = .ok (frame, rest) := by
  unfold FrameBody.decode
  simp only [UInt8.le_iff_toNat_le, ← UInt8.toNat_inj, UInt8.reduceToNat]
  cases h with
  | same h63 =>
    rw [if_pos h63]
    rfl
  | @sameWithItem _ item h64 h127 hok =>
    rw [if_neg (by omega), if_pos h127]
    exact (VerificationType.reads_decode.bind fun item =>
      Decoder.reads_pure (kind.toNat - 64, sameWithItem item)).complete
        ⟨item, _, _, ⟨hok, rfl⟩, ⟨rfl, rfl⟩, (List.append_nil _).symm⟩ rest
  | @sameWithItemExtended d item hok =>
    exact (Decoder.reads_u16.bind fun d => VerificationType.reads_decode.bind fun item =>
      Decoder.reads_pure (d.toNat, sameWithItem item)).complete
        ⟨d, _, _, ⟨trivial, rfl⟩, ⟨item, _, _, ⟨hok, rfl⟩, ⟨rfl, rfl⟩, (List.append_nil _).symm⟩, rfl⟩ rest
  | @chop _ d h248 h250 =>
    rw [if_neg (by omega), if_neg (by omega), if_neg (by omega)]
    simp only [if_neg (show ¬ kind.toNat = 247 by omega), if_pos h250]
    exact (Decoder.reads_u16.bind fun d => Decoder.reads_pure (d.toNat, FrameBody.chop (251 - kind))).complete
      ⟨d, _, _, ⟨trivial, rfl⟩, ⟨rfl, rfl⟩, (List.append_nil _).symm⟩ rest
  | @sameExtended d =>
    exact (Decoder.reads_u16.bind fun d => Decoder.reads_pure (d.toNat, FrameBody.same)).complete
      ⟨d, _, _, ⟨trivial, rfl⟩, ⟨rfl, rfl⟩, (List.append_nil _).symm⟩ rest
  | @append _ d locals h252 h254 hl hok =>
    rw [if_neg (by omega), if_neg (by omega), if_neg (by omega)]
    simp only [if_neg (show ¬ kind.toNat = 247 by omega), if_neg (show ¬ kind.toNat ≤ 250 by omega),
      if_neg (show ¬ kind.toNat = 251 by omega), if_pos h254]
    exact (Decoder.reads_u16.bind fun d => (reads_types (kind.toNat - 251)).bind fun locals =>
      Decoder.reads_pure (d.toNat, FrameBody.append locals)).complete
        ⟨d, _, _, ⟨trivial, rfl⟩, ⟨locals, _, _, ⟨⟨hl, hok⟩, rfl⟩, ⟨rfl, rfl⟩, (List.append_nil _).symm⟩, rfl⟩ rest
  | @full d locals stack hl hl' hok hok' =>
    exact (Decoder.reads_u16.bind fun d => VerificationType.reads_decode.counted_spelled.bind fun locals =>
      VerificationType.reads_decode.counted_spelled.bind fun stack =>
        Decoder.reads_pure (d.toNat, FrameBody.full locals stack)).complete
          ⟨d, _, _, ⟨trivial, rfl⟩, ⟨locals, _, _, ⟨⟨hl, hok⟩, rfl⟩, ⟨stack, _, _, ⟨⟨hl', hok'⟩, rfl⟩, ⟨rfl, rfl⟩,
            (List.append_nil _).symm⟩, rfl⟩, rfl⟩ rest

end

end FrameBody

theorem StackMap.reads_decodeFrame : StackMap.decodeFrame.Reads StoredFrame := by
  intro input frame rest
  constructor
  · intro h
    obtain ⟨kind, mid, hkind, h⟩ := Decoder.bind_eq_ok_iff.1 h
    obtain ⟨_, ⟨-, rfl⟩, rfl⟩ := Decoder.reads_u8.sound hkind
    obtain ⟨raw, hraw, rfl⟩ := FrameBody.sound_decode h
    exact ⟨kind :: raw, hraw, rfl⟩
  · rintro ⟨raw, hraw, rfl⟩
    obtain ⟨kind, more, rfl⟩ : ∃ kind more, raw = kind :: more := by
      cases hraw <;> exact ⟨_, _, rfl⟩
    exact Decoder.bind_eq_ok_iff.2 ⟨kind, more ++ rest, rfl, FrameBody.complete_decode hraw rest⟩

/-! ## Offsets -/

namespace StackMap

/-- The frames at their offsets: the first one at its distance, a later one that much and one more behind the frame
before it. -/
def offsets : Option Nat → List (Nat × FrameBody) → List Frame
  | _, [] => []
  | none, (distance, body) :: rest => ⟨distance, body⟩ :: offsets (some distance) rest
  | some previous, (distance, body) :: rest =>
    ⟨previous + distance + 1, body⟩ :: offsets (some (previous + distance + 1)) rest

theorem place_eq (previous : Option Nat) (found : List Frame) (stored : List (Nat × FrameBody)) :
    place previous found stored = found.reverse ++ offsets previous stored := by
  induction stored generalizing previous found with
  | nil => cases previous <;> simp [place, offsets]
  | cons frame stored ih =>
    obtain ⟨distance, body⟩ := frame
    cases previous <;> simp [place, offsets, offsetAfter, ih]

/-- The content holds the frames: their number, then each in a stored form. What stands behind them is no matter. -/
def Holds (content : List UInt8) (frames : List Frame) : Prop :=
  ∃ stored raw rest, Decoder.Counted StoredFrame stored raw ∧ content = raw ++ rest ∧ frames = offsets none stored

/-- Reading gives the frames that are stored, at their offsets. -/
theorem decode_eq_ok_iff {content : List UInt8} {frames : List Frame} :
    decode content = .ok frames ↔ Holds content frames := by
  unfold decode
  constructor
  · intro h
    split at h
    · next stored rest hstored =>
      cases h
      obtain ⟨raw, hraw, rfl⟩ := reads_decodeFrame.counted.sound hstored
      exact ⟨stored, raw, rest, hraw, rfl, by rw [place_eq]; rfl⟩
    · cases h
  · rintro ⟨stored, raw, rest, hraw, rfl, rfl⟩
    rw [reads_decodeFrame.counted.complete hraw rest]
    simp [place_eq]

theorem length_offsets (previous : Option Nat) (stored : List (Nat × FrameBody)) :
    (offsets previous stored).length = stored.length := by
  induction stored generalizing previous with
  | nil => cases previous <;> rfl
  | cons frame stored ih => cases previous <;> simp [offsets, ih]

/-- Each frame stands behind the one before it. -/
def Ascends : Option Nat → List Frame → Prop
  | _, [] => True
  | previous, frame :: rest => (∀ p ∈ previous, p < frame.offset) ∧ Ascends (some frame.offset) rest

theorem ascends_offsets (previous : Option Nat) (stored : List (Nat × FrameBody)) :
    Ascends previous (offsets previous stored) := by
  induction stored generalizing previous with
  | nil => cases previous <;> trivial
  | cons frame stored ih =>
    cases previous with
    | none => exact ⟨by simp, ih (some frame.1)⟩
    | some p =>
      refine ⟨?_, ih (some (p + frame.1 + 1))⟩
      intro q hq
      obtain rfl := Option.some.inj hq
      show p < p + frame.1 + 1
      omega

/-- The distance to store for a frame at an offset. -/
def distance : Option Nat → Nat → Nat
  | none, offset => offset
  | some previous, offset => offset - (previous + 1)

/-- The frames by their distances. -/
def distances : Option Nat → List Frame → List (Nat × FrameBody)
  | _, [] => []
  | previous, frame :: rest => (distance previous frame.offset, frame.body) :: distances (some frame.offset) rest

theorem offsets_distances {previous : Option Nat} {frames : List Frame} (h : Ascends previous frames) :
    offsets previous (distances previous frames) = frames := by
  induction frames generalizing previous with
  | nil => cases previous <;> rfl
  | cons frame frames ih =>
    cases previous with
    | none => simp only [distances, distance, offsets, ih h.2]
    | some p =>
      have hp : p + (frame.offset - (p + 1)) + 1 = frame.offset := by have := h.1 p rfl; omega
      simp only [distances, distance, offsets, hp, ih h.2]

theorem length_distances (previous : Option Nat) (frames : List Frame) :
    (distances previous frames).length = frames.length := by
  induction frames generalizing previous with
  | nil => cases previous <;> rfl
  | cons frame frames ih => simp only [distances, List.length_cons, ih]

end StackMap

/-! ## Moved frames -/

namespace FrameBody

/-- A body and what stands for it: of the same kind, with the same types moved along. -/
inductive Moved (I : Nat → Nat → Prop) : FrameBody → FrameBody → Prop
  | same : Moved I .same .same
  | sameWithItem {item item' : VerificationType} : item.Moved I item' →
      Moved I (.sameWithItem item) (.sameWithItem item')
  | chop (count : UInt8) : Moved I (.chop count) (.chop count)
  | append {locals locals' : List VerificationType} : List.Forall₂ (VerificationType.Moved I) locals locals' →
      Moved I (.append locals) (.append locals')
  | full {locals locals' stack stack' : List VerificationType} :
      List.Forall₂ (VerificationType.Moved I) locals locals' → List.Forall₂ (VerificationType.Moved I) stack stack' →
      Moved I (.full locals stack) (.full locals' stack')

/-- A body that a stored frame can have. -/
def WellFormed : FrameBody → Prop
  | .same => True
  | .sameWithItem item => item.WellTagged
  | .chop count => ∃ kind : UInt8, 248 ≤ kind.toNat ∧ kind.toNat ≤ 250 ∧ count = 251 - kind
  | .append locals => 1 ≤ locals.length ∧ locals.length ≤ 3 ∧ ∀ t ∈ locals, t.WellTagged
  | .full locals stack =>
    locals.length < 0x10000 ∧ stack.length < 0x10000 ∧ (∀ t ∈ locals, t.WellTagged) ∧ ∀ t ∈ stack, t.WellTagged

/-- The bytes of a frame at a distance, in the compact form where the distance fits it. -/
def spell (distance : Nat) : FrameBody → List UInt8
  | .same => if distance ≤ 63 then [UInt8.ofNat distance] else 251 :: bytes16 (UInt16.ofNat distance)
  | .sameWithItem item =>
    (if distance ≤ 63 then [UInt8.ofNat (64 + distance)] else 247 :: bytes16 (UInt16.ofNat distance)) ++ item.encode
  | .chop count => (251 - count) :: bytes16 (UInt16.ofNat distance)
  | .append locals =>
    UInt8.ofNat (251 + locals.length) :: (bytes16 (UInt16.ofNat distance) ++ locals.flatMap VerificationType.encode)
  | .full locals stack =>
    255 :: (bytes16 (UInt16.ofNat distance) ++ ((count16 locals.length ++ locals.flatMap VerificationType.encode) ++
      (count16 stack.length ++ stack.flatMap VerificationType.encode)))

theorem wellFormed_of_stored {frame : Nat × FrameBody} {raw : List UInt8} (h : StoredFrame frame raw) :
    frame.2.WellFormed := by
  cases h with
  | same | sameExtended => trivial
  | sameWithItem _ _ hok | sameWithItemExtended hok => exact hok
  | chop h248 h250 => exact ⟨_, h248, h250, rfl⟩
  | append h252 h254 hl hok => exact ⟨by omega, by omega, hok⟩
  | full hl hl' hok hok' => exact ⟨hl, hl', hok, hok'⟩

theorem forall_wellTagged {I : Nat → Nat → Prop} {ts ts' : List VerificationType}
    (h : List.Forall₂ (VerificationType.Moved I) ts ts') (hok : ∀ t ∈ ts, t.WellTagged) :
    ∀ t ∈ ts', t.WellTagged := by
  induction h with
  | nil => exact hok
  | cons ht _ ih =>
    rw [List.forall_mem_cons] at hok ⊢
    exact ⟨ht.wellTagged hok.1, ih hok.2⟩

theorem Moved.wellFormed {I : Nat → Nat → Prop} {b b' : FrameBody} (h : Moved I b b') (hb : b.WellFormed) :
    b'.WellFormed := by
  cases h with
  | same | chop => exact hb
  | sameWithItem hitem => exact hitem.wellTagged hb
  | append hl => exact ⟨hl.length_eq ▸ hb.1, hl.length_eq ▸ hb.2.1, forall_wellTagged hl hb.2.2⟩
  | full hl hs =>
    exact ⟨hl.length_eq ▸ hb.1, hs.length_eq ▸ hb.2.1, forall_wellTagged hl hb.2.2.1, forall_wellTagged hs hb.2.2.2⟩

/-- The compact form and the extended one both stand for the frame. -/
theorem stored_spell {distance : Nat} {b : FrameBody} (hd : distance < 0x10000) (hb : b.WellFormed) :
    StoredFrame (distance, b) (b.spell distance) := by
  have hwide : (UInt16.ofNat distance).toNat = distance := UInt16.toNat_ofNat_of_lt' hd
  cases b with
  | same =>
    rw [spell]
    split_ifs with h63
    · have hkind : (UInt8.ofNat distance).toNat = distance := by rw [UInt8.toNat_ofNat']; omega
      have := @StoredFrame.same (UInt8.ofNat distance) (by omega)
      rwa [hkind] at this
    · have := @StoredFrame.sameExtended (UInt16.ofNat distance)
      rwa [hwide] at this
  | sameWithItem item =>
    rw [spell]
    split_ifs with h63
    · have hkind : (UInt8.ofNat (64 + distance)).toNat = 64 + distance := by rw [UInt8.toNat_ofNat']; omega
      have := @StoredFrame.sameWithItem (UInt8.ofNat (64 + distance)) item (by omega) (by omega) hb
      rwa [hkind, Nat.add_sub_cancel_left] at this
    · have := @StoredFrame.sameWithItemExtended (UInt16.ofNat distance) item hb
      rwa [hwide] at this
  | chop count =>
    obtain ⟨kind, h248, h250, rfl⟩ := hb
    have := @StoredFrame.chop kind (UInt16.ofNat distance) h248 h250
    rw [hwide] at this
    rwa [spell, show 251 - (251 - kind) = kind by grind]
  | append locals =>
    have hkind : (UInt8.ofNat (251 + locals.length)).toNat = 251 + locals.length :=
      by rw [UInt8.toNat_ofNat']; have := hb.2.1; omega
    have := @StoredFrame.append (UInt8.ofNat (251 + locals.length)) (UInt16.ofNat distance) locals
      (by have := hb.1; omega) (by have := hb.2.1; omega) (by omega) hb.2.2
    rwa [hwide] at this
  | full locals stack =>
    have := @StoredFrame.full (UInt16.ofNat distance) locals stack hb.1 hb.2.1 hb.2.2.1 hb.2.2.2
    rwa [hwide] at this

section
variable {layout : Layout}

theorem relocateTypes_eq_ok_iff {ts : List VerificationType} {bytes : List UInt8} :
    relocateTypes layout ts = .ok bytes ↔
      ∃ ts', List.Forall₂ (VerificationType.Moved layout.relocation.instruction) ts ts' ∧
        bytes = ts'.flatMap VerificationType.encode := by
  simp only [relocateTypes, Except.bind_eq_ok_iff, Except.mapM_eq_ok_iff, Except.pure_eq_ok_iff,
    VerificationType.relocate_eq_ok_iff, eq_comm (b := bytes)]

theorem relocate_eq_ok_iff {distance : Nat} {b : FrameBody} {bytes : List UInt8} :
    b.relocate layout distance = .ok bytes ↔
      distance < 0x10000 ∧ ∃ b', Moved layout.relocation.instruction b b' ∧ bytes = b'.spell distance := by
  have hnarrow : (∃ wide : UInt16, distance = wide.toNat) ↔ distance < 0x10000 :=
    ⟨by rintro ⟨wide, rfl⟩; exact wide.toNat_lt, fun h => ⟨_, (UInt16.toNat_ofNat_of_lt' h).symm⟩⟩
  rw [relocate, Except.bind_eq_ok_iff, ← hnarrow]
  simp only [Layout.narrow_eq_ok_iff]
  constructor
  · rintro ⟨wide, rfl, h⟩
    refine ⟨⟨wide, rfl⟩, ?_⟩
    cases b with
    | same =>
      rw [Except.pure_eq_ok_iff] at h
      exact ⟨.same, .same, by rw [← h, spell, UInt16.ofNat_toNat]⟩
    | sameWithItem item =>
      simp only [Except.bind_eq_ok_iff, Except.pure_eq_ok_iff, VerificationType.relocate_eq_ok_iff] at h
      obtain ⟨item', hitem, rfl⟩ := h
      exact ⟨.sameWithItem item', .sameWithItem hitem, by rw [spell, UInt16.ofNat_toNat]⟩
    | chop count =>
      rw [Except.pure_eq_ok_iff] at h
      exact ⟨.chop count, .chop count, by rw [← h, spell, UInt16.ofNat_toNat]⟩
    | append locals =>
      simp only [Except.bind_eq_ok_iff, Except.pure_eq_ok_iff, relocateTypes_eq_ok_iff] at h
      obtain ⟨_, ⟨locals', hl, rfl⟩, rfl⟩ := h
      exact ⟨.append locals', .append hl, by rw [spell, UInt16.ofNat_toNat, hl.length_eq]⟩
    | full locals stack =>
      simp only [Except.bind_eq_ok_iff, Except.pure_eq_ok_iff, relocateTypes_eq_ok_iff] at h
      obtain ⟨_, ⟨locals', hl, rfl⟩, _, ⟨stack', hs, rfl⟩, rfl⟩ := h
      refine ⟨.full locals' stack', .full hl hs, ?_⟩
      rw [spell, UInt16.ofNat_toNat, hl.length_eq, hs.length_eq, List.append_assoc (count16 locals'.length)]
  · rintro ⟨⟨wide, rfl⟩, b', hmoved, rfl⟩
    refine ⟨wide, rfl, ?_⟩
    cases hmoved with
    | same => simp only [spell, UInt16.ofNat_toNat, Except.pure_eq_ok_iff]
    | sameWithItem hitem =>
      simp only [Except.bind_eq_ok_iff, Except.pure_eq_ok_iff, VerificationType.relocate_eq_ok_iff]
      exact ⟨_, hitem, by rw [spell, UInt16.ofNat_toNat]⟩
    | chop count => simp only [spell, UInt16.ofNat_toNat, Except.pure_eq_ok_iff]
    | append hl =>
      simp only [Except.bind_eq_ok_iff, Except.pure_eq_ok_iff, relocateTypes_eq_ok_iff]
      exact ⟨_, ⟨_, hl, rfl⟩, by rw [spell, UInt16.ofNat_toNat, hl.length_eq]⟩
    | @full locals locals' _ _ hl hs =>
      simp only [Except.bind_eq_ok_iff, Except.pure_eq_ok_iff, relocateTypes_eq_ok_iff]
      refine ⟨_, ⟨_, hl, rfl⟩, _, ⟨_, hs, rfl⟩, ?_⟩
      rw [spell, UInt16.ofNat_toNat, hl.length_eq, hs.length_eq, List.append_assoc (count16 locals'.length)]

end

end FrameBody

/-- A frame and what stands for it: the offset is moved as a target is. -/
structure Frame.Moved (R : Relocation) (f f' : Frame) : Prop where
  offset : R.target f.offset f'.offset
  body : f.body.Moved R.instruction f'.body

namespace StackMap

/-- The content of a stack map with given frames. -/
def spell (frames : List Frame) : List UInt8 :=
  count16 frames.length ++ (distances none frames).flatMap fun frame => frame.2.spell frame.1

theorem distanceAfter_eq_ok_iff {previous : Option Nat} {offset d : Nat} :
    distanceAfter previous offset = .ok d ↔ (∀ p ∈ previous, p < offset) ∧ d = distance previous offset := by
  cases previous with
  | none => simp [distanceAfter, distance, eq_comm]
  | some p =>
    simp only [distanceAfter, distance]
    split_ifs with h
    · simp only [Except.ok.injEq, Option.mem_some_iff, forall_eq']
      omega
    · simp only [Option.mem_some_iff, forall_eq', false_iff]
      omega

theorem encodeOnto_eq_ok_iff {layout : Layout} {previous : Option Nat} {found : List (List UInt8)}
    {frames : List Frame} {out : List UInt8} :
    encodeOnto layout previous found frames = .ok out ↔
      ∃ frames', List.Forall₂ (Frame.Moved layout.relocation) frames frames' ∧ Ascends previous frames' ∧
        (∀ frame ∈ distances previous frames', frame.1 < 0x10000) ∧
        out = found.reverse.flatten ++ (distances previous frames').flatMap fun frame => frame.2.spell frame.1 := by
  induction frames generalizing previous found with
  | nil =>
    rw [encodeOnto, Except.ok.injEq]
    constructor
    · rintro rfl
      exact ⟨[], .nil, trivial, by simp [distances], by simp [distances]⟩
    · rintro ⟨_, hmoved, -, -, rfl⟩
      cases hmoved
      simp [distances]
  | cons frame frames ih =>
    constructor
    · intro h
      rw [encodeOnto] at h
      split at h
      · cases h
      · next offset htarget =>
        split at h
        · cases h
        · next d hd =>
          split at h
          · cases h
          · next bytes hbytes =>
            obtain ⟨hbehind, rfl⟩ := distanceAfter_eq_ok_iff.1 hd
            obtain ⟨hlt, body', hbody, rfl⟩ := FrameBody.relocate_eq_ok_iff.1 hbytes
            obtain ⟨frames', hmoved, hasc, hall, rfl⟩ := ih.1 h
            refine ⟨⟨offset, body'⟩ :: frames', .cons ⟨htarget, hbody⟩ hmoved, ⟨hbehind, hasc⟩, ?_, ?_⟩
            · rw [distances, List.forall_mem_cons]
              exact ⟨hlt, hall⟩
            · simp [distances]
    · rintro ⟨_, hmoved, hasc, hall, rfl⟩
      cases hmoved with
      | @cons _ frame' _ frames' hframe hmoved =>
        rw [distances, List.forall_mem_cons] at hall
        have htarget : layout.target frame.offset = .ok frame'.offset := hframe.offset
        have hd := distanceAfter_eq_ok_iff.2 ⟨hasc.1, rfl⟩
        have hbytes := FrameBody.relocate_eq_ok_iff.2 ⟨hall.1, _, hframe.body, rfl⟩
        have hrest : encodeOnto layout (some frame'.offset)
            (frame'.body.spell (distance previous frame'.offset) :: found) frames =
              .ok (found.reverse.flatten ++ (distances previous (frame' :: frames')).flatMap fun f => f.2.spell f.1) :=
          ih.2 ⟨frames', hmoved, hasc.2, hall.2, by simp [distances]⟩
        simp only [encodeOnto, htarget, hd, hbytes, hrest]

/-- Frames that moved along a relocation that keeps targets in order still ascend. -/
theorem ascends_moved {R : Relocation} (hR : R.Fits) {frames frames' : List Frame}
    (h : List.Forall₂ (Frame.Moved R) frames frames') {previous previous' : Option Nat}
    (hprevious : ∀ p' ∈ previous', ∃ p ∈ previous, R.target p p') (hasc : Ascends previous frames) :
    Ascends previous' frames' ∧ ∀ frame ∈ distances previous' frames', frame.1 < 0x10000 := by
  induction h generalizing previous previous' with
  | nil => exact ⟨by cases previous' <;> trivial, by simp [distances]⟩
  | @cons frame frame' frames frames' hframe _ ih =>
    have hlt := hR.target_lt hframe.offset
    have hnext : ∀ p' ∈ some frame'.offset, ∃ p ∈ some frame.offset, R.target p p' := by
      simp only [Option.mem_some_iff, forall_eq', exists_eq_left']
      exact hframe.offset
    obtain ⟨hasc', hall⟩ := ih hnext hasc.2
    refine ⟨⟨fun p' hp' => ?_, hasc'⟩, ?_⟩
    · obtain ⟨p, hp, hT⟩ := hprevious p' hp'
      exact hR.target_strictMono hT hframe.offset (hasc.1 p hp)
    · rw [distances, List.forall_mem_cons]
      refine ⟨?_, hall⟩
      cases previous' with
      | none => exact hlt
      | some p' =>
        simp only [distance]
        omega

theorem ascends_moved_offsets {R : Relocation} (hR : R.Fits) {stored : List (Nat × FrameBody)} {frames' : List Frame}
    (h : List.Forall₂ (Frame.Moved R) (offsets none stored) frames') :
    Ascends none frames' ∧ ∀ frame ∈ distances none frames', frame.1 < 0x10000 := by
  have hnone : ∀ p' ∈ (none : Option Nat), ∃ p ∈ (none : Option Nat), R.target p p' := by simp
  exact ascends_moved hR h hnone (ascends_offsets none stored)

/-- The content of a stack map and the content that stands for it. -/
def Moved (R : Relocation) (content content' : List UInt8) : Prop :=
  ∃ frames frames', decode content = .ok frames ∧ List.Forall₂ (Frame.Moved R) frames frames' ∧ content' = spell frames'

theorem relocate_eq_ok_iff {layout : Layout} (hfits : layout.relocation.Fits) {content content' : List UInt8} :
    relocate layout content = .ok content' ↔ Moved layout.relocation content content' := by
  unfold relocate
  constructor
  · intro h
    split at h
    · cases h
    · next frames hframes =>
      split at h
      · cases h
      · next bytes hbytes =>
        cases h
        obtain ⟨frames', hmoved, -, -, rfl⟩ := encodeOnto_eq_ok_iff.1 hbytes
        exact ⟨frames, frames', hframes, hmoved, by rw [spell, hmoved.length_eq]; rfl⟩
  · rintro ⟨frames, frames', hframes, hmoved, rfl⟩
    obtain ⟨stored, -, -, -, -, rfl⟩ := decode_eq_ok_iff.1 hframes
    obtain ⟨hasc, hall⟩ := ascends_moved_offsets hfits hmoved
    have hbytes : encodeOnto layout none [] (offsets none stored) = .ok _ :=
      encodeOnto_eq_ok_iff.2 ⟨frames', hmoved, hasc, hall, rfl⟩
    simp only [hframes, hbytes]
    rw [spell, hmoved.length_eq]
    rfl

/-- Ascending frames are read back from their stored form. -/
theorem decode_spell {frames : List Frame} (hlen : frames.length < 0x10000) (hasc : Ascends none frames)
    (hall : ∀ frame ∈ distances none frames, frame.1 < 0x10000) (hok : ∀ frame ∈ frames, frame.body.WellFormed) :
    decode (spell frames) = .ok frames := by
  have hbody : ∀ previous, ∀ frame ∈ distances previous frames, frame.2.WellFormed := by
    clear hlen hasc hall
    induction frames with
    | nil => simp [distances]
    | cons f frames ih =>
      intro previous
      rw [List.forall_mem_cons] at hok
      rw [distances, List.forall_mem_cons]
      exact ⟨hok.1, ih hok.2 _⟩
  have hraws : List.Forall₂ StoredFrame (distances none frames)
      ((distances none frames).map fun frame => frame.2.spell frame.1) := by
    rw [List.forall₂_map_right_iff, List.forall₂_same]
    exact fun frame hframe => FrameBody.stored_spell (hall frame hframe) (hbody none frame hframe)
  refine decode_eq_ok_iff.2 ⟨distances none frames, spell frames, [], ⟨?_, _, hraws, ?_⟩, by simp,
    (offsets_distances hasc).symm⟩
  · rwa [length_distances]
  · rw [spell, length_distances, List.flatMap_def]

theorem wellFormed_offsets {stored : List (Nat × FrameBody)} (hok : ∀ frame ∈ stored, frame.2.WellFormed)
    (previous : Option Nat) : ∀ frame ∈ offsets previous stored, frame.body.WellFormed := by
  induction stored generalizing previous with
  | nil => cases previous <;> simp [offsets]
  | cons frame stored ih =>
    rw [List.forall_mem_cons] at hok
    cases previous with
    | none => exact List.forall_mem_cons.2 ⟨hok.1, ih hok.2 _⟩
    | some p => exact List.forall_mem_cons.2 ⟨hok.1, ih hok.2 _⟩

theorem wellFormed_of_decode {content : List UInt8} {frames : List Frame} (h : decode content = .ok frames) :
    frames.length < 0x10000 ∧ ∀ frame ∈ frames, frame.body.WellFormed := by
  obtain ⟨stored, raw, -, ⟨hlen, raws, hraws, -⟩, -, rfl⟩ := decode_eq_ok_iff.1 h
  have hstored : ∀ frame ∈ stored, frame.2.WellFormed := by
    clear h hlen
    induction hraws with
    | nil => simp
    | cons hframe _ ih => exact List.forall_mem_cons.2 ⟨FrameBody.wellFormed_of_stored hframe, ih⟩
  exact ⟨by rwa [length_offsets], wellFormed_offsets hstored none⟩

theorem wellFormed_moved {R : Relocation} {frames frames' : List Frame}
    (h : List.Forall₂ (Frame.Moved R) frames frames') (hok : ∀ frame ∈ frames, frame.body.WellFormed) :
    ∀ frame ∈ frames', frame.body.WellFormed := by
  induction h with
  | nil => exact hok
  | cons hframe _ ih =>
    rw [List.forall_mem_cons] at hok ⊢
    exact ⟨hframe.body.wellFormed hok.1, ih hok.2⟩

/-- **What a moved stack map says**: reading it gives the old frames, each moved. -/
theorem decode_spell_moved {R : Relocation} (hR : R.Fits) {content : List UInt8} {frames frames' : List Frame}
    (hframes : decode content = .ok frames) (hmoved : List.Forall₂ (Frame.Moved R) frames frames') :
    decode (spell frames') = .ok frames' := by
  obtain ⟨hlen, hok⟩ := wellFormed_of_decode hframes
  obtain ⟨stored, -, -, -, -, rfl⟩ := decode_eq_ok_iff.1 hframes
  obtain ⟨hasc, hall⟩ := ascends_moved_offsets hR hmoved
  exact decode_spell (hmoved.length_eq ▸ hlen) hasc hall (wellFormed_moved hmoved hok)

end StackMap

/-! ## Moving twice -/

section
variable {R S : Relocation}

theorem VerificationType.Moved.trans {I J : Nat → Nat → Prop} {t t' t'' : VerificationType} (h : Moved I t t')
    (h' : Moved J t' t'') : Moved (fun o n => ∃ m, I o m ∧ J m n) t t'' := by
  cases h with
  | simple tag =>
    cases h'
    exact .simple tag
  | object index =>
    cases h'
    exact .object index
  | uninitialized ho =>
    cases h' with
    | uninitialized ho' => exact .uninitialized ⟨_, ho, ho'⟩

theorem FrameBody.Moved.trans {I J : Nat → Nat → Prop} {b b' b'' : FrameBody} (h : Moved I b b')
    (h' : Moved J b' b'') : Moved (fun o n => ∃ m, I o m ∧ J m n) b b'' := by
  have types {ts ts' ts'' : List VerificationType} (a : List.Forall₂ (VerificationType.Moved I) ts ts')
      (b : List.Forall₂ (VerificationType.Moved J) ts' ts'') :
      List.Forall₂ (VerificationType.Moved fun o n => ∃ m, I o m ∧ J m n) ts ts'' :=
    List.forall₂_trans_of (fun _ _ _ ht ht' => ht.trans ht') a b
  cases h with
  | same =>
    cases h'
    exact .same
  | sameWithItem hitem =>
    cases h' with
    | sameWithItem hitem' => exact .sameWithItem (hitem.trans hitem')
  | chop count =>
    cases h'
    exact .chop count
  | append hl =>
    cases h' with
    | append hl' => exact .append (types hl hl')
  | full hl hs =>
    cases h' with
    | full hl' hs' => exact .full (types hl hl') (types hs hs')

theorem Frame.Moved.trans {f f' f'' : Frame} (h : Frame.Moved R f f') (h' : Frame.Moved S f' f'') :
    Frame.Moved (R.comp S) f f'' :=
  ⟨⟨_, h.offset, h'.offset⟩, h.body.trans h'.body⟩

theorem StackMap.Moved.trans (hR : R.Fits) {content content' content'' : List UInt8}
    (h : StackMap.Moved R content content') (h' : StackMap.Moved S content' content'') :
    StackMap.Moved (R.comp S) content content'' := by
  obtain ⟨frames, frames', hframes, hmoved, rfl⟩ := h
  obtain ⟨_, frames'', hframes', hmoved', rfl⟩ := h'
  rw [StackMap.decode_spell_moved hR hframes hmoved] at hframes'
  cases hframes'
  exact ⟨frames, frames'', hframes, List.forall₂_trans_of (fun _ _ _ hf hf' => hf.trans hf') hmoved hmoved', rfl⟩

end

end Registrar
