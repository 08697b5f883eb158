import Registrar.Injection.Target
import Registrar.Proofs.Places

/-!
# Paths of copies

Paths as lists of pieces, and where the copies of classes stand.

* `Path.pieces_ofPieces`, `ofPieces_pieces` : a path and its pieces say the same;
* `Path.steps_join`, `place_join` : a path behind another leads on from where that one leads to;
* `Path.exists_parent?`, `IsBelow` : the path above leads to the place above;
* `IsProperName` : a class name without empty parts and dots. The entries of proper names lead to places none of which
  is above another, and to different ones for different names (`IsProperName.not_above`, `eq_of_steps_eq`);
* `Path.place_scratchPath` : the place of a copy.
-/

namespace Registrar

namespace Path

/-! ## Pieces -/

theorem splitSlashes_ne_nil (text : List Char) : splitSlashes text ≠ [] := by
  cases text with
  | nil => simp [splitSlashes]
  | cons c text =>
    unfold splitSlashes
    by_cases hc : c = '/'
    · simp [hc]
    · rw [if_neg hc]
      split <;> simp

theorem splitSlashes_append_slash (a b : List Char) :
    splitSlashes (a ++ '/' :: b) = splitSlashes a ++ splitSlashes b := by
  induction a with
  | nil => simp [splitSlashes]
  | cons c a ih =>
    rw [List.cons_append, splitSlashes, splitSlashes, ih]
    by_cases hc : c = '/'
    · rw [if_pos hc, if_pos hc, List.cons_append]
    · rw [if_neg hc, if_neg hc]
      cases hsplit : splitSlashes a with
      | nil => exact absurd hsplit (splitSlashes_ne_nil a)
      | cons part parts => rfl

theorem splitSlashes_of_not_mem {text : List Char} (h : '/' ∉ text) : splitSlashes text = [text] := by
  induction text with
  | nil => rfl
  | cons c text ih =>
    rw [List.mem_cons, not_or] at h
    rw [splitSlashes, if_neg (Ne.symm h.1), ih h.2]

theorem not_mem_of_mem_splitSlashes {text part : List Char} (h : part ∈ splitSlashes text) : '/' ∉ part := by
  induction text generalizing part with
  | nil =>
    rw [splitSlashes, List.mem_singleton] at h
    simp [h]
  | cons c text ih =>
    unfold splitSlashes at h
    by_cases hc : c = '/'
    · rw [if_pos hc, List.mem_cons] at h
      rcases h with rfl | h
      · simp
      · exact ih h
    · rw [if_neg hc] at h
      cases hsplit : splitSlashes text with
      | nil => exact absurd hsplit (splitSlashes_ne_nil text)
      | cons first others =>
        rw [hsplit] at h ih
        rcases List.mem_cons.1 h with rfl | h
        · rw [List.mem_cons, not_or]
          exact ⟨Ne.symm hc, ih List.mem_cons_self⟩
        · exact ih (List.mem_cons_of_mem _ h)

theorem joinSlashes_cons (part : List Char) {parts : List (List Char)} (h : parts ≠ []) :
    joinSlashes (part :: parts) = part ++ '/' :: joinSlashes parts := by
  cases parts with
  | nil => exact absurd rfl h
  | cons first others => rfl

theorem joinSlashes_splitSlashes (text : List Char) : joinSlashes (splitSlashes text) = text := by
  induction text with
  | nil => rfl
  | cons c text ih =>
    unfold splitSlashes
    by_cases hc : c = '/'
    · rw [if_pos hc, joinSlashes_cons _ (splitSlashes_ne_nil text), ih, hc]
      rfl
    · rw [if_neg hc]
      cases hsplit : splitSlashes text with
      | nil => exact absurd hsplit (splitSlashes_ne_nil text)
      | cons first others =>
        rw [hsplit] at ih
        rw [← ih]
        cases others <;> rfl

theorem splitSlashes_joinSlashes {parts : List (List Char)} (hparts : parts ≠ []) (h : ∀ part ∈ parts, '/' ∉ part) :
    splitSlashes (joinSlashes parts) = parts := by
  induction parts with
  | nil => exact absurd rfl hparts
  | cons part parts ih =>
    rw [List.forall_mem_cons] at h
    by_cases hrest : parts = []
    · subst hrest
      exact splitSlashes_of_not_mem h.1
    · rw [joinSlashes_cons _ hrest, splitSlashes_append_slash, splitSlashes_of_not_mem h.1, ih hrest h.2]
      rfl

theorem not_mem_of_mem_pieces {path piece : String} (h : piece ∈ pieces path) : '/' ∉ piece.toList := by
  obtain ⟨part, hpart, rfl⟩ := List.mem_map.1 h
  rw [String.toList_ofList]
  exact not_mem_of_mem_splitSlashes hpart

theorem pieces_of_not_mem {path : String} (h : '/' ∉ path.toList) : pieces path = [path] := by
  rw [pieces, splitSlashes_of_not_mem h, List.map_singleton, String.ofList_toList]

theorem ofPieces_pieces (path : String) : ofPieces (pieces path) = path := by
  have hmap : (pieces path).map String.toList = splitSlashes path.toList := by
    simp [pieces, Function.comp_def]
  rw [ofPieces, hmap, joinSlashes_splitSlashes, String.ofList_toList]

theorem pieces_ofPieces {parts : List String} (hparts : parts ≠ []) (h : ∀ part ∈ parts, '/' ∉ part.toList) :
    pieces (ofPieces parts) = parts := by
  have hsplit : splitSlashes (joinSlashes (parts.map String.toList)) = parts.map String.toList := by
    apply splitSlashes_joinSlashes (mt List.map_eq_nil_iff.1 hparts)
    intro part hpart
    obtain ⟨piece, hpiece, rfl⟩ := List.mem_map.1 hpart
    exact h piece hpiece
  rw [pieces, ofPieces, String.toList_ofList, hsplit]
  simp [Function.comp_def]

theorem ofPieces_singleton (piece : String) : ofPieces [piece] = piece := String.ofList_toList

theorem utf8ByteSize_ofPieces_cons (piece : String) {pieces : List String} (h : pieces ≠ []) :
    (ofPieces (piece :: pieces)).utf8ByteSize = piece.utf8ByteSize + 1 + (ofPieces pieces).utf8ByteSize := by
  have hcons : ofPieces (piece :: pieces) = piece ++ ("/" ++ ofPieces pieces) := by
    apply String.toList_inj.1
    simp [ofPieces, joinSlashes_cons _ (mt List.map_eq_nil_iff.1 h)]
  rw [hcons, String.utf8ByteSize_append, String.utf8ByteSize_append]
  have hslash : "/".utf8ByteSize = 1 := rfl
  omega

theorem eq_of_pieces_eq {a b : String} (h : pieces a = pieces b) : a = b := by
  rw [← ofPieces_pieces a, h, ofPieces_pieces]

theorem namesDirectory_of_endsInside {path : String} (h : endsInside path = true) : namesDirectory path = true := by
  unfold endsInside at h
  unfold namesDirectory
  rcases List.eq_nil_or_concat (pieces path) with hnil | ⟨front, last, hlast⟩
  · rw [hnil]
    rfl
  · rw [hlast, List.concat_eq_append] at h ⊢
    rw [List.getLast?_concat]
    by_cases hempty : last.isEmpty = true
    · simp [isIdle, hempty]
    · rw [Bool.not_eq_true] at hempty
      rw [List.filter_append, List.filter_singleton, hempty, Bool.not_false, cond_true, List.getLast?_concat] at h
      obtain rfl : last = "." := by simpa using h
      rfl

/-- The last step of a path that can lead to a file. -/
theorem exists_last_step {path : String} (h : namesDirectory path = false) :
    ∃ front name, steps path = front ++ [name] ∧ name ≠ ".." := by
  unfold namesDirectory at h
  cases hlast : (pieces path).getLast? with
  | none =>
    rw [hlast] at h
    cases h
  | some name =>
    rw [hlast, Bool.or_eq_false_iff, beq_eq_false_iff_ne] at h
    obtain ⟨front, hfront⟩ := List.getLast?_eq_some_iff.1 hlast
    refine ⟨front.filter fun piece => !isIdle piece, name, ?_, h.2⟩
    rw [steps, hfront, List.filter_append, List.filter_singleton, h.1]
    rfl

theorem isAbsolute_iff {path : String} : isAbsolute path = true ↔ ∃ next rest, pieces path = "" :: next :: rest := by
  unfold isAbsolute pieces
  cases htext : path.toList with
  | nil => simp [splitSlashes]
  | cons c text =>
    rw [List.head?_cons, splitSlashes]
    by_cases hc : c = '/'
    · obtain ⟨next, rest, hrest⟩ := List.exists_cons_of_ne_nil (splitSlashes_ne_nil text)
      simp [hc, hrest]
    · rw [if_neg hc]
      cases splitSlashes text <;> simp [hc, ← String.toList_inj]

theorem isAbsolute_of_not_mem {path : String} (h : '/' ∉ path.toList) : isAbsolute path = false := by
  rw [Bool.eq_false_iff, ne_eq, isAbsolute_iff, pieces_of_not_mem h]
  simp

/-! ## A path behind another -/

/-- The pieces of a path, and those that lead somewhere of the one in front of it. -/
theorem exists_pieces_join (base : String) {path : String} (hpath : isAbsolute path = false) :
    ∃ front, pieces (join base path) = front ++ pieces path ∧
      (front.filter fun piece => !isIdle piece) = steps base := by
  unfold join
  rw [if_neg (Bool.eq_false_iff.1 hpath)]
  by_cases hopen : isOpen base = true
  · rw [if_pos hopen]
    unfold isOpen at hopen
    cases hlast : base.toList.getLast? with
    | none =>
      have hbase : base = "" := String.toList_eq_nil_iff.1 (List.getLast?_eq_none_iff.1 hlast)
      refine ⟨[], ?_, ?_⟩
      · rw [hbase, String.empty_append, List.nil_append]
      · rw [hbase]
        rfl
    | some c =>
      rw [hlast] at hopen
      obtain rfl : c = '/' := of_decide_eq_true hopen
      obtain ⟨front, hfront⟩ := List.getLast?_eq_some_iff.1 hlast
      have hbase : pieces base = (splitSlashes front).map String.ofList ++ [""] := by
        rw [pieces, hfront, splitSlashes_append_slash, List.map_append]
        rfl
      refine ⟨(splitSlashes front).map String.ofList, ?_, ?_⟩
      · rw [pieces, String.toList_append, hfront, List.append_assoc, List.singleton_append, splitSlashes_append_slash,
          List.map_append]
        rfl
      · rw [steps, hbase, List.filter_append]
        exact (List.append_nil _).symm
  · rw [if_neg hopen]
    refine ⟨pieces base, ?_, rfl⟩
    rw [pieces, String.toList_append, String.toList_append, List.append_assoc]
    show (splitSlashes (base.toList ++ '/' :: path.toList)).map String.ofList = _
    rw [splitSlashes_append_slash, List.map_append]
    rfl

theorem steps_join (base : String) {path : String} (hpath : isAbsolute path = false) :
    steps (join base path) = steps base ++ steps path := by
  obtain ⟨front, hpieces, hfront⟩ := exists_pieces_join base hpath
  rw [steps, hpieces, List.filter_append, hfront]
  rfl

theorem isAbsolute_join (base : String) {path : String} (hpath : isAbsolute path = false) :
    isAbsolute (join base path) = isAbsolute base := by
  unfold join
  rw [if_neg (Bool.eq_false_iff.1 hpath)]
  by_cases hbase : base = ""
  · subst hbase
    rw [if_pos (by decide), String.empty_append, hpath]
    rfl
  · have hne : base.toList ≠ [] := mt String.toList_eq_nil_iff.1 hbase
    obtain ⟨c, rest, htext⟩ := List.exists_cons_of_ne_nil hne
    have hhead (tail : String) : isAbsolute (base ++ tail) = isAbsolute base := by
      rw [isAbsolute, isAbsolute, String.toList_append, htext]
      rfl
    split
    · exact hhead path
    · rw [String.append_assoc]
      exact hhead _

theorem utf8ByteSize_join (base : String) {path : String} (hpath : isAbsolute path = false) :
    (join base path).utf8ByteSize = room base + path.utf8ByteSize := by
  unfold join room
  rw [if_neg (Bool.eq_false_iff.1 hpath)]
  split
  · exact String.utf8ByteSize_append
  · rw [String.utf8ByteSize_append, String.utf8ByteSize_append]
    rfl

theorem join_ne_empty {base : String} (h : base ≠ "") (path : String) : join base path ≠ "" := by
  have happend (a b : String) (ha : a ≠ "") : a ++ b ≠ "" := by
    intro hempty
    exact ha (String.append_eq_empty_iff.1 hempty).1
  unfold join
  split
  · next habsolute =>
    rintro rfl
    cases habsolute
  · split
    · exact happend _ _ h
    · exact happend _ _ (happend _ _ h)

/-- A path that two paths and a slash make has their characters. -/
theorem not_mem_join {base path : String} {c : Char} (hbase : c ∉ base.toList) (hpath : c ∉ path.toList)
    (hc : c ≠ '/') : c ∉ (join base path).toList := by
  unfold join
  split
  · exact hpath
  · split
    · simp [hbase, hpath]
    · simp [hbase, hpath, hc]

theorem not_mem_ofPieces {q : List String} {c : Char} (hc : c ≠ '/') (h : ∀ piece ∈ q, c ∉ piece.toList) :
    c ∉ (ofPieces q).toList := by
  rw [ofPieces, String.toList_ofList]
  induction q with
  | nil => exact List.not_mem_nil
  | cons piece q ih =>
    rw [List.forall_mem_cons] at h
    by_cases hq : q = []
    · subst hq
      exact h.1
    · rw [List.map_cons, joinSlashes_cons _ (mt List.map_eq_nil_iff.1 hq)]
      simp [h.1, hc, ih h.2]

theorem place_join (directory : List String) (base : String) {path : String} (hpath : isAbsolute path = false) :
    place directory (join base path) = place directory base ++ steps path := by
  rw [place, place, isAbsolute_join base hpath, steps_join base hpath, List.append_assoc]

/-! ## The path above -/

theorem exists_dropIdleEnd (absolute : Bool) (pieces : List String) :
    ∃ idle, pieces = idle ++ dropIdleEnd absolute pieces ∧ ∀ piece ∈ idle, isIdle piece = true := by
  induction pieces with
  | nil => exact ⟨[], rfl, by simp⟩
  | cons piece rest ih =>
    unfold dropIdleEnd
    by_cases hidle : (isIdle piece && (absolute || piece.isEmpty || !rest.isEmpty)) = true
    · obtain ⟨idle, hrest, hall⟩ := ih
      rw [if_pos hidle]
      refine ⟨piece :: idle, ?_, ?_⟩
      · rw [List.cons_append, ← hrest]
      · rw [List.forall_mem_cons]
        exact ⟨(Bool.and_eq_true_iff.1 hidle).1, hall⟩
    · rw [if_neg hidle]
      exact ⟨[], rfl, by simp⟩

theorem head_dropIdleEnd_ne {absolute : Bool} {pieces kept : List String} {piece : String}
    (h : dropIdleEnd absolute pieces = piece :: kept) : piece ≠ "" := by
  induction pieces with
  | nil => cases h
  | cons first rest ih =>
    unfold dropIdleEnd at h
    by_cases hidle : (isIdle first && (absolute || first.isEmpty || !rest.isEmpty)) = true
    · rw [if_pos hidle] at h
      exact ih h
    · rw [if_neg hidle] at h
      cases h
      rintro rfl
      exact hidle (by simp [isIdle])

theorem dropIdleEnd_of_not_isIdle (absolute : Bool) {piece : String} (rest : List String) (h : isIdle piece = false) :
    dropIdleEnd absolute (piece :: rest) = piece :: rest := by
  rw [dropIdleEnd, h, Bool.false_and, if_neg Bool.false_ne_true]

/-- What is left of the pieces in front of the last one, in their order. -/
theorem exists_front (absolute : Bool) (front : List String) : ∃ idle,
    front = (dropIdleEnd absolute front.reverse).reverse ++ idle ∧
      ((dropIdleEnd absolute front.reverse).reverse.filter fun piece => !isIdle piece) =
        front.filter fun piece => !isIdle piece := by
  obtain ⟨idle, hfront, hidle⟩ := exists_dropIdleEnd absolute front.reverse
  have hsplit : front = (dropIdleEnd absolute front.reverse).reverse ++ idle.reverse := by
    rw [← List.reverse_append, ← hfront, List.reverse_reverse]
  have hnone : (idle.reverse.filter fun piece => !isIdle piece) = [] := by
    rw [List.filter_eq_nil_iff]
    intro piece hpiece
    simp [hidle piece (List.mem_reverse.1 hpiece)]
  refine ⟨idle.reverse, hsplit, ?_⟩
  conv_rhs => rw [hsplit]
  rw [List.filter_append, hnone, List.append_nil]

/-- A path is absolute if its first pieces are those of an absolute one, and the last of them is not empty. -/
theorem isAbsolute_ofPieces {path last : String} {front rest : List String}
    (hpieces : pieces path = front ++ [last] ++ rest) (hlast : last ≠ "")
    (hslash : ∀ piece ∈ front ++ [last], '/' ∉ piece.toList) :
    isAbsolute (ofPieces (front ++ [last])) = isAbsolute path := by
  have hback : pieces (ofPieces (front ++ [last])) = front ++ [last] := pieces_ofPieces (by simp) hslash
  rw [Bool.eq_iff_iff, isAbsolute_iff, isAbsolute_iff, hback, hpieces]
  cases front with
  | nil => simp [hlast]
  | cons first others => cases others <;> simp

/-- The path above one whose last piece names something leads to where the steps in front of that piece lead. -/
theorem exists_parent? {path last : String} {front : List String} (hpieces : pieces path = front ++ [last])
    (hlast : isIdle last = false) : ∃ above, parent? path = some above ∧ steps path = steps above ++ [last] ∧
      isAbsolute above = isAbsolute path := by
  have hslash : ∀ piece ∈ front, '/' ∉ piece.toList := by
    intro piece hpiece
    refine not_mem_of_mem_pieces (?_ : piece ∈ pieces path)
    rw [hpieces]
    exact List.mem_append_left _ hpiece
  obtain ⟨idle, hfront, hkept⟩ := exists_front (isAbsolute path) front
  have hsteps : steps path = (front.filter fun piece => !isIdle piece) ++ [last] := by
    rw [steps, hpieces, List.filter_append, List.filter_singleton, hlast]
    rfl
  rw [parent?, hpieces, List.reverse_append, List.reverse_singleton, List.singleton_append,
    dropIdleEnd_of_not_isIdle _ _ hlast, hsteps, ← hkept]
  dsimp only
  cases hdrop : dropIdleEnd (isAbsolute path) front.reverse with
  | nil =>
    -- Nothing is left: the path above is the root, or the directory from which relative paths start.
    cases isAbsolute path with
    | true => exact ⟨"/", rfl, rfl, rfl⟩
    | false => exact ⟨"", rfl, rfl, rfl⟩
  | cons piece kept =>
    rw [hdrop, List.reverse_cons] at hfront
    have hmem : ∀ p ∈ kept.reverse ++ [piece], '/' ∉ p.toList := by
      intro p hp
      apply hslash p
      rw [hfront]
      exact List.mem_append_left _ hp
    have hall : pieces path = kept.reverse ++ [piece] ++ (idle ++ [last]) := by
      rw [hpieces, hfront, List.append_assoc]
    have habsolute : isAbsolute (ofPieces (kept.reverse ++ [piece])) = isAbsolute path :=
      isAbsolute_ofPieces hall (head_dropIdleEnd_ne hdrop) hmem
    have hnot : ¬ (isAbsolute path && (ofPieces (kept.reverse ++ [piece])).isEmpty) = true := by
      rw [Bool.and_eq_true, not_and]
      intro hpath hempty
      rw [← habsolute, String.isEmpty_iff.1 hempty] at hpath
      exact absurd hpath (by decide)
    rw [List.reverse_cons]
    refine ⟨ofPieces (kept.reverse ++ [piece]), congrArg some (if_neg hnot), ?_, habsolute⟩
    rw [steps, pieces_ofPieces (by simp) hmem]

/-- A path that goes down to a name, and the path above it. -/
structure IsBelow (path above name : String) : Prop where
  parent? : parent? path = some above
  steps : steps path = steps above ++ [name]
  isAbsolute : isAbsolute above = isAbsolute path
  isPlain : IsPlain path

theorem IsPlain.not_mem {path : String} (h : IsPlain path) {front behind : List String}
    (hsteps : steps path = front ++ behind) : ".." ∉ front := by
  intro hmem
  apply h
  rw [hsteps]
  exact List.mem_append_left _ hmem

theorem IsBelow.isPlain_above {path above name : String} (h : IsBelow path above name) : IsPlain above :=
  h.isPlain.not_mem h.steps

end Path

/-! ## Copies of classes -/

/-- A class name without empty parts and dots. -/
def IsProperName (className : String) : Prop := ∀ part ∈ Path.pieces className, part ≠ "" ∧ '.' ∉ part.toList

instance (className : String) : Decidable (IsProperName className) := inferInstanceAs (Decidable (∀ _ ∈ _, _))

/-- The pieces of a class entry are the parts of the name, the last one with the suffix. -/
theorem exists_pieces_classEntryName (className : String) : ∃ front last, Path.pieces className = front ++ [last] ∧
    Path.pieces (classEntryName className) = front ++ [last ++ classSuffix] := by
  have hsplit (text suffix : List Char) (hsuffix : '/' ∉ suffix) : ∃ front last,
      Path.splitSlashes text = front ++ [last] ∧ Path.splitSlashes (text ++ suffix) = front ++ [last ++ suffix] := by
    induction text with
    | nil => exact ⟨[], [], rfl, Path.splitSlashes_of_not_mem hsuffix⟩
    | cons c text ih =>
      obtain ⟨front, last, htext, hboth⟩ := ih
      rw [List.cons_append, Path.splitSlashes, Path.splitSlashes, htext, hboth]
      by_cases hc : c = '/'
      · rw [if_pos hc, if_pos hc]
        exact ⟨[] :: front, last, rfl, rfl⟩
      · rw [if_neg hc, if_neg hc]
        cases front with
        | nil => exact ⟨[], c :: last, rfl, rfl⟩
        | cons first others => exact ⟨(c :: first) :: others, last, rfl, rfl⟩
  obtain ⟨front, last, htext, hboth⟩ := hsplit className.toList classSuffix.toList (by decide)
  refine ⟨front.map String.ofList, String.ofList last, ?_, ?_⟩
  · rw [Path.pieces, htext, List.map_append, List.map_singleton]
  · rw [Path.pieces, classEntryName, String.toList_append, hboth, List.map_append, List.map_singleton,
      String.ofList_append, String.ofList_toList]

/-- The steps of the entry of a proper name. Only the last one has a dot. -/
theorem IsProperName.exists_steps {className : String} (h : IsProperName className) : ∃ front last,
    Path.pieces className = front ++ [last] ∧ Path.pieces (classEntryName className) = front ++ [last ++ classSuffix] ∧
    Path.steps (classEntryName className) = front ++ [last ++ classSuffix] ∧
    (∀ step ∈ front, '.' ∉ step.toList) ∧ '.' ∈ (last ++ classSuffix).toList ∧
    Path.isIdle (last ++ classSuffix) = false := by
  obtain ⟨front, last, hname, hentry⟩ := exists_pieces_classEntryName className
  have hproper : ∀ step ∈ front, step ≠ "" ∧ '.' ∉ step.toList := by
    intro step hstep
    exact h step (by rw [hname]; exact List.mem_append_left _ hstep)
  have hlast : last ≠ "" := (h last (by rw [hname]; exact List.mem_append_right _ (List.mem_singleton_self _))).1
  have hlength : classSuffix.toList.length ≤ (last ++ classSuffix).toList.length := by
    rw [String.toList_append, List.length_append]
    exact Nat.le_add_left _ _
  have hnotIdle : Path.isIdle (last ++ classSuffix) = false := by
    rw [Path.isIdle, Bool.or_eq_false_iff]
    constructor
    · rw [Bool.eq_false_iff]
      intro hempty
      rw [String.isEmpty_iff.1 hempty] at hlength
      exact absurd hlength (by decide)
    · rw [beq_eq_false_iff_ne]
      intro hdot
      rw [hdot] at hlength
      exact absurd hlength (by decide)
  refine ⟨front, last, hname, hentry, ?_, fun step hstep => (hproper step hstep).2, ?_, hnotIdle⟩
  · rw [Path.steps, hentry, List.filter_eq_self]
    intro step hstep
    rcases List.mem_append.1 hstep with hstep | hstep
    · obtain ⟨hne, hdot⟩ := hproper step hstep
      have hother : step ≠ "." := by
        rintro rfl
        exact hdot (by decide)
      simp [Path.isIdle, hne, hother]
    · rw [List.mem_singleton.1 hstep, hnotIdle]
      rfl
  · rw [String.toList_append]
    exact List.mem_append_right _ (by decide)

theorem IsProperName.isPlain {className : String} (h : IsProperName className) :
    Path.IsPlain (classEntryName className) := by
  obtain ⟨front, last, -, -, hsteps, hfront, -⟩ := h.exists_steps
  intro hmem
  rw [hsteps] at hmem
  rcases List.mem_append.1 hmem with hmem | hmem
  · exact hfront _ hmem (by decide)
  · have hlength := congrArg (fun text : String => text.toList.length) (List.mem_singleton.1 hmem)
    rw [String.toList_append, List.length_append] at hlength
    exact absurd hlength (by
      show 2 ≠ last.toList.length + 6
      omega)

theorem IsProperName.isAbsolute {className : String} (h : IsProperName className) :
    Path.isAbsolute (classEntryName className) = false := by
  obtain ⟨front, last, hname, hentry, -, -, -, hlast⟩ := h.exists_steps
  rw [Bool.eq_false_iff, ne_eq, Path.isAbsolute_iff, hentry]
  rintro ⟨next, rest, hempty⟩
  cases front with
  | nil => simp at hempty
  | cons first others =>
    obtain ⟨rfl, -⟩ := List.cons.inj hempty
    exact (h "" (by rw [hname]; exact List.mem_cons_self)).1 rfl

/-- The copy of one class does not stand where the copy of another has a directory. -/
theorem IsProperName.not_above {a b : String} (ha : IsProperName a) (hb : IsProperName b) :
    ¬ Path.steps (classEntryName a) <+: (Path.steps (classEntryName b)).dropLast := by
  obtain ⟨front, last, -, -, hsteps, -, hdot, -⟩ := ha.exists_steps
  obtain ⟨front', last', -, -, hsteps', hfront', -⟩ := hb.exists_steps
  rw [hsteps, hsteps', List.dropLast_concat]
  intro hleads
  exact hfront' _ (hleads.subset (List.mem_append_right _ (List.mem_singleton_self _))) hdot

theorem IsProperName.eq_of_steps_eq {a b : String} (ha : IsProperName a) (hb : IsProperName b)
    (h : Path.steps (classEntryName a) = Path.steps (classEntryName b)) : a = b := by
  obtain ⟨front, last, hname, -, hsteps, -⟩ := ha.exists_steps
  obtain ⟨front', last', hname', -, hsteps', -⟩ := hb.exists_steps
  rw [hsteps, hsteps'] at h
  obtain ⟨rfl, hlast⟩ := List.append_inj' h rfl
  have hsuffix : last = last' := by
    have htext := congrArg String.toList (List.singleton_inj.1 hlast)
    rw [String.toList_append, String.toList_append] at htext
    exact String.toList_inj.1 (List.append_cancel_right htext)
  exact Path.eq_of_pieces_eq (by rw [hname, hname', hsuffix])

namespace Path

/-- The steps to the directory of copies. -/
def copySteps (work : String) : List String := steps work ++ ["classes"]

theorem scratchPath_steps (work entry : String) :
    steps (scratchPath work entry) = copySteps work ++ steps entry ∧
      isAbsolute (scratchPath work entry) = isAbsolute work := by
  have hfold (parts : List String) (base : String) (h : ∀ part ∈ parts, '/' ∉ part.toList) :
      steps (parts.foldl join base) = steps base ++ parts.filter (fun piece => !isIdle piece) ∧
        isAbsolute (parts.foldl join base) = isAbsolute base := by
    induction parts generalizing base with
    | nil => exact ⟨(List.append_nil _).symm, rfl⟩
    | cons part parts ih =>
      rw [List.forall_mem_cons] at h
      have hpart := isAbsolute_of_not_mem h.1
      obtain ⟨hsteps, habsolute⟩ := ih (join base part) h.2
      refine ⟨?_, habsolute.trans (isAbsolute_join base hpart)⟩
      rw [List.foldl_cons, hsteps, steps_join base hpart, List.append_assoc]
      congr 1
      rw [steps, pieces_of_not_mem h.1, ← List.filter_append, List.singleton_append]
  obtain ⟨hsteps, habsolute⟩ := hfold (pieces entry) (join work "classes") fun part => not_mem_of_mem_pieces
  have hclasses : isAbsolute "classes" = false := by decide
  refine ⟨?_, habsolute.trans (isAbsolute_join work hclasses)⟩
  rw [scratchPath, hsteps, steps_join work hclasses]
  rfl

/-- The place of the directory of copies. -/
def copies (directory : List String) (work : String) : List String :=
  (if isAbsolute work then [] else directory) ++ copySteps work

theorem place_scratchPath (directory : List String) (work entry : String) :
    place directory (scratchPath work entry) = copies directory work ++ steps entry := by
  obtain ⟨hsteps, habsolute⟩ := scratchPath_steps work entry
  rw [place, hsteps, habsolute, copies, List.append_assoc]

theorem isPlain_scratchPath {work className : String} (hwork : IsPlain work) (hname : IsProperName className) :
    IsPlain (scratchPath work (classEntryName className)) := by
  unfold IsPlain
  rw [(scratchPath_steps _ _).1, copySteps, List.mem_append, List.mem_append, not_or, not_or]
  exact ⟨⟨hwork, by decide⟩, hname.isPlain⟩

theorem exists_isBelow_scratchPath {work className : String} (hwork : IsPlain work) (hname : IsProperName className) :
    ∃ above name, IsBelow (scratchPath work (classEntryName className)) above name := by
  obtain ⟨front, last, -, hentry, -, -, -, hlast⟩ := hname.exists_steps
  have hslash : '/' ∉ (last ++ classSuffix).toList := by
    refine not_mem_of_mem_pieces (?_ : _ ∈ pieces (classEntryName className))
    rw [hentry]
    exact List.mem_append_right _ (List.mem_singleton_self _)
  obtain ⟨behind, hpieces, -⟩ :=
    exists_pieces_join (front.foldl join (join work "classes")) (isAbsolute_of_not_mem hslash)
  rw [pieces_of_not_mem hslash] at hpieces
  have hpath : scratchPath work (classEntryName className) =
      join (front.foldl join (join work "classes")) (last ++ classSuffix) := by
    rw [scratchPath, hentry, List.foldl_append, List.foldl_cons, List.foldl_nil]
  obtain ⟨above, hparent, hsteps, habsolute⟩ := exists_parent? hpieces hlast
  rw [← hpath] at hparent hsteps habsolute
  exact ⟨above, _, hparent, hsteps, habsolute, isPlain_scratchPath hwork hname⟩

end Path

end Registrar
