import Registrar.Proofs.Scanning

/-!
# Which entries a scan passes over

* `EntryFate`, `fates` : what becomes of each entry, by its place in the list of all entries;
* `Scan.sorts_of` : the numbers of a scan add up these fates;
* `fate_eq_passedOver_iff` : an entry is passed over if one in front of it shares its name;
* `EndsOnce` : an entry ends with `.class` just once. `eq_of_sharesName` : only equal ones of these share their name;
* `Scan.looksAt_of_new` : then an entry whose name is new is looked at. `Scan.not_forall_looksAt` : others may not be.
-/

namespace Registrar

/-! ## Fates -/

/-- What becomes of a class entry in a scan. -/
inductive EntryFate where
  /-- It is counted as a class. -/
  | counted
  /-- It is listed as one that cannot be read. -/
  | malformed
  /-- It is counted as a duplicate, and nobody looks at it. -/
  | passedOver
  deriving DecidableEq, Repr

/-- What becomes of an entry that stands behind others. -/
def fate (fs : FileSystem) (earlier : List (Root × String)) (x : Root × String) : EntryFate :=
  if isShadowed earlier x.2 then .passedOver
  else if (metadataAt fs x).isSome then .counted
  else .malformed

/-- What becomes of some entries, in their order. -/
def fates (fs : FileSystem) (es : List (Root × String)) : List EntryFate :=
  es.zipIdx.map fun x => fate fs (es.take x.2) x.1

/-- An entry is passed over if one in front of it shares its name, and only then. -/
theorem fate_eq_passedOver_iff {fs : FileSystem} {earlier : List (Root × String)} {x : Root × String} :
    fate fs earlier x = .passedOver ↔ ∃ y ∈ earlier, SharesName y.2 x.2 := by
  simp only [sharesName_iff, ← isShadowed_iff, fate]
  cases isShadowed earlier x.2 <;> cases (metadataAt fs x).isSome <;> simp

theorem getElem?_fates (fs : FileSystem) (earlier later : List (Root × String)) (x : Root × String) :
    (fates fs (earlier ++ x :: later))[earlier.length]? = some (fate fs earlier x) := by
  rw [fates, List.getElem?_map, List.getElem?_zipIdx, List.getElem?_append_right (Nat.le_refl _), Nat.sub_self,
    List.getElem?_cons_zero, Option.map_some, Option.map_some, Nat.zero_add, List.take_left]

namespace Scan

/-- A scan adds up what became of each entry. -/
structure Sorts (es : List (Root × String)) (fates : List EntryFate) (s : Scan) : Prop where
  length : fates.length = es.length
  classes : s.classCount = fates.count .counted
  malformed : s.malformed.Perm
    (((es.zip fates).filter fun x => x.2 == .malformed).map fun x => x.1.1.origin x.1.2)
  duplicates : s.duplicateCount = fates.count .passedOver

theorem Tallies.sorts {fs : FileSystem} {rules : List Rule} {es : List (Root × String)} {s : Scan}
    (h : Tallies fs rules es s) : s.Sorts es (fates fs es) where
  length := by rw [fates, List.length_map, List.length_zipIdx]
  classes := by
    rw [h.classes, ownedEntries, fates, List.count, List.countP_map, List.countP_map, List.countP_filter]
    apply List.countP_congr
    intro x hx
    simp only [Function.comp_apply, fate]
    cases isShadowed (es.take x.2) x.1.2 <;> cases (metadataAt fs x.1).isSome <;> simp
  malformed := by
    have hzip : es.zip (fates fs es) = es.zipIdx.map fun x => (x.1, fate fs (es.take x.2) x.1) := by
      rw [fates, ← List.zip_map', List.zipIdx_map_fst]
    rw [hzip, List.filter_map, List.map_map]
    refine h.malformed.trans (List.Perm.of_eq ?_)
    rw [ownedEntries, List.filter_map, List.map_map, List.filter_filter]
    congr 1
    apply List.filter_congr
    intro x hx
    simp only [Function.comp_apply, fate]
    cases isShadowed (es.take x.2) x.1.2 <;> cases metadataAt fs x.1 <;> rfl
  duplicates := by
    rw [h.duplicates, shadowedEntries, List.length_map, fates, List.count, List.countP_map,
      ← List.countP_eq_length_filter]
    apply List.countP_congr
    intro x hx
    simp only [Function.comp_apply, fate]
    cases isShadowed (es.take x.2) x.1.2 <;> cases (metadataAt fs x.1).isSome <;> simp

theorem sorts_of (fs : FileSystem) (inputs : Inputs) (rules : List Rule) :
    (Scan.of fs inputs rules).Sorts (inputs.entries fs) (fates fs (inputs.entries fs)) := by
  rw [of_eq]
  exact (tallies_ofVerdicts fs rules _ rfl).sorts

end Scan

/-! ## Names that end with `.class` once -/

/-- What stands in front of the `.class` at the end of an entry does not end with `.class` again. -/
def EndsOnce (entry : String) : Prop := ¬ (classSuffix.toList ++ classSuffix.toList) <:+ entry.toList

instance (entry : String) : Decidable (EndsOnce entry) := by unfold EndsOnce; infer_instance

theorem EndsOnce.toList_eq {entry name : String} (h : EndsOnce entry) (hentry : isScannableEntry entry = true)
    (hname : IsStripped entry name) : entry.toList = name.toList ++ classSuffix.toList := by
  obtain ⟨⟨n, hn⟩, hstop⟩ := hname
  obtain _ | _ | n := n
  · have hsuffix : classSuffix.toList <:+ entry.toList := by
      simp only [isScannableEntry, Bool.and_eq_true, List.isSuffixOf_iff_suffix] at hentry
      exact hentry.1.1
    rw [hn, List.replicate_zero, List.flatten_nil, List.append_nil] at hsuffix
    exact absurd hsuffix hstop
  · rw [hn, List.replicate_one, List.flatten_singleton]
  · refine absurd ⟨name.toList ++ (List.replicate n classSuffix.toList).flatten, ?_⟩ h
    rw [hn, List.replicate_succ', List.replicate_succ', List.flatten_concat, List.flatten_concat]
    simp only [List.append_assoc]

/-- Entries that end with `.class` once share their name only if they are equal. -/
theorem eq_of_sharesName {a b : String} (ha : EndsOnce a) (hb : EndsOnce b) (hascannable : isScannableEntry a = true)
    (hbscannable : isScannableEntry b = true) (h : SharesName a b) : a = b := by
  obtain ⟨name, hanamed, hbnamed⟩ := h
  apply String.toList_inj.1
  rw [ha.toList_eq hascannable hanamed, hb.toList_eq hbscannable hbnamed]

theorem Inputs.isScannable_of_mem_entries {i : Inputs} {fs : FileSystem} {x : Root × String} (h : x ∈ i.entries fs) :
    isScannableEntry x.2 = true := by
  obtain ⟨root, -, hx⟩ := List.mem_flatMap.1 h
  cases hlisted : root.classEntries fs with
  | error cause =>
    rw [hlisted] at hx
    cases hx
  | ok entries =>
    rw [hlisted] at hx
    obtain ⟨entry, hentry, rfl⟩ := List.mem_map.1 hx
    unfold Root.classEntries at hlisted
    split at hlisted
    · split at hlisted
      · obtain ⟨names, -, rfl⟩ := Except.map_eq_ok_iff.1 hlisted
        exact (List.mem_filter.1 hentry).2
      · cases hlisted
        cases hentry
    · obtain ⟨names, -, rfl⟩ := Except.map_eq_ok_iff.1 hlisted
      exact (List.mem_filter.1 hentry).2

/-- The bytes of a class that has nothing but a name. -/
def bareClass (name : String) : List UInt8 :=
  [0xca, 0xfe, 0xba, 0xbe, 0, 0, 0, 0x34, 0, 5, 1, 0, UInt8.ofNat name.utf8ByteSize] ++ name.toUTF8.toList ++
    [7, 0, 1, 1, 0, 16] ++ "java/lang/Object".toUTF8.toList ++
    [7, 0, 3, 0, 0x21, 0, 2, 0, 4, 0, 0, 0, 0, 0, 0, 0, 0]

namespace Scan

/-- **Only an entry with the same name shadows an entry**, if every entry ends with `.class` just once: an entry whose
name is new is counted as a class or listed as malformed, and is not among the duplicates. -/
theorem looksAt_of_new (fs : FileSystem) (inputs : Inputs) (rules : List Rule) {earlier later : List (Root × String)}
    {x : Root × String} (hentries : inputs.entries fs = earlier ++ x :: later) (hnew : ∀ y ∈ earlier, y.2 ≠ x.2)
    (honce : ∀ y ∈ earlier ++ [x], EndsOnce y.2) :
    (Scan.of fs inputs rules).Sorts (inputs.entries fs) (fates fs (inputs.entries fs)) ∧
      ((fates fs (inputs.entries fs))[earlier.length]? = some .counted ∨
        (fates fs (inputs.entries fs))[earlier.length]? = some .malformed) := by
  refine ⟨sorts_of fs inputs rules, ?_⟩
  have hlooked : fate fs earlier x ≠ .passedOver := by
    rw [Ne, fate_eq_passedOver_iff]
    rintro ⟨y, hy, hshares⟩
    have hymem : y ∈ inputs.entries fs := by
      rw [hentries]
      exact List.mem_append_left _ hy
    have hxmem : x ∈ inputs.entries fs := by
      rw [hentries]
      exact List.mem_append_right _ List.mem_cons_self
    exact hnew y hy (eq_of_sharesName (honce y (List.mem_append_left _ hy))
      (honce x (List.mem_append_right _ List.mem_cons_self)) (Inputs.isScannable_of_mem_entries hymem)
      (Inputs.isScannable_of_mem_entries hxmem) hshares)
  rw [hentries, getElem?_fates, Option.some.injEq, Option.some.injEq]
  cases hfate : fate fs earlier x with
  | counted => exact .inl rfl
  | malformed => exact .inr rfl
  | passedOver => exact absurd hfate hlooked

/-- The class `A` in one archive and another class in a second one. -/
def besideA (name : String) : FileSystem where
  root := .directory .full [("first.jar", .file .full (.ofArchive [⟨"A.class", .bytes (bareClass "A")⟩])),
    ("second.jar", .file .full (.ofArchive [⟨classEntryName name, .bytes (bareClass name)⟩]))]
  workingDirectory := []

/-- The two archives. -/
def bothArchives : Inputs := ⟨[], ["first.jar", "second.jar"]⟩

theorem entries_besideA : ∀ name ∈ ["B", "A.class"], bothArchives.entries (besideA name) =
    [(.archive "first.jar", "A.class"), (.archive "second.jar", classEntryName name)] := by
  decide +kernel

theorem looksAt_of_new_besideA :
    (Scan.of (besideA "B") bothArchives []).Sorts (bothArchives.entries (besideA "B"))
      (fates (besideA "B") (bothArchives.entries (besideA "B"))) ∧
    ((fates (besideA "B") (bothArchives.entries (besideA "B")))[1]? = some .counted ∨
      (fates (besideA "B") (bothArchives.entries (besideA "B")))[1]? = some .malformed) := by
  have hentries : bothArchives.entries (besideA "B") =
      [(.archive "first.jar", "A.class")] ++ (.archive "second.jar", classEntryName "B") :: [] :=
    entries_besideA "B" (by decide)
  exact looksAt_of_new (besideA "B") bothArchives [] hentries (by decide) (by decide)

/-- A scan may pass over entries although all have different names. -/
theorem not_forall_looksAt : ¬ ∀ (fs : FileSystem) (inputs : Inputs) (rules : List Rule),
    ((inputs.entries fs).map Prod.snd).Nodup → (Scan.of fs inputs rules).duplicateCount = 0 := by
  intro h
  have hnone := h (besideA "A.class") bothArchives []
  rw [(sorts_of _ _ _).duplicates, entries_besideA "A.class" (by decide)] at hnone
  exact absurd (hnone (by decide)) (by decide +kernel)

end Scan

end Registrar
