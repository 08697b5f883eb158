import Mathlib.Data.List.Basic
import Registrar.Proofs.Results
import Registrar.Scan

/-!
# What a scan finds

* `IsStripped entry name` : what is left of an entry without the `.class` that it ends with, however often it does.
  `ownershipKey_eq_iff` : the key of an entry is just that;
* `Inputs.entries` : the class entries of all roots. `ownedEntries`, `shadowedEntries` : those that no earlier entry
  shares its name with, and the others;
* `ownedFrom earlier es` : the owned ones of some entries that stand behind others. `Claims.claim_eq`,
  `Claims.claimAll_eq`: claims hand out these, one root after the other;
* `Rule.Wants` : the classes that a rule registers. `Rule.accepts_iff` : the rule accepts just these;
* `Scan.Tallies` : the classes that each rule wants among the owned entries, and a count of every entry.
  `Scan.tallies_ofVerdicts`, `Scan.of_eq` : a scan finds and counts these.
-/

namespace Registrar

/-! ## Entries that share their name -/

/-- What is left of an entry without the `.class` at its end, however often it stands there. -/
def IsStripped (entry name : String) : Prop :=
  (∃ n, entry.toList = name.toList ++ (List.replicate n classSuffix.toList).flatten) ∧
    ¬ classSuffix.toList <:+ name.toList

/-- Two entries share their name if nothing but the `.class` at their ends tells them apart. -/
def SharesName (a b : String) : Prop := ∃ name, IsStripped a name ∧ IsStripped b name

theorem exists_dropReversedSuffixes (text : List Char) :
    (∃ n, text = (List.replicate n classSuffix.toList.reverse).flatten ++ dropReversedSuffixes text) ∧
      ¬ classSuffix.toList.reverse <+: dropReversedSuffixes text := by
  have hreverse : classSuffix.toList.reverse = ['s', 's', 'a', 'l', 'c', '.'] := by decide
  fun_induction dropReversedSuffixes text with
  | case1 rest ih =>
    obtain ⟨⟨n, hn⟩, hstop⟩ := ih
    refine ⟨⟨n + 1, ?_⟩, hstop⟩
    rw [List.replicate_succ, List.flatten_cons, List.append_assoc, ← hn, hreverse]
    rfl
  | case2 text hno =>
    refine ⟨⟨0, rfl⟩, ?_⟩
    intro hstart
    obtain ⟨rest, hrest⟩ := hstart
    rw [hreverse] at hrest
    exact hno rest hrest.symm

/-- What does not start with the suffix is left as it is, and the suffixes in front of it are dropped. -/
theorem dropReversedSuffixes_append (n : Nat) {stem : List Char} (h : ¬ classSuffix.toList.reverse <+: stem) :
    dropReversedSuffixes ((List.replicate n classSuffix.toList.reverse).flatten ++ stem) = stem := by
  have hreverse : classSuffix.toList.reverse = ['s', 's', 'a', 'l', 'c', '.'] := by decide
  rw [hreverse] at h ⊢
  induction n with
  | zero =>
    show dropReversedSuffixes stem = stem
    unfold dropReversedSuffixes
    split
    · next rest => exact absurd ⟨rest, rfl⟩ h
    · rfl
  | succ n ih =>
    rw [List.replicate_succ, List.flatten_cons, List.append_assoc]
    show dropReversedSuffixes ((List.replicate n _).flatten ++ stem) = stem
    exact ih

theorem ownershipKey_eq_iff {entry name : String} : ownershipKey entry = name ↔ IsStripped entry name := by
  constructor
  · rintro rfl
    obtain ⟨⟨n, hn⟩, hstop⟩ := exists_dropReversedSuffixes entry.toList.reverse
    refine ⟨⟨n, ?_⟩, ?_⟩
    · rw [ownershipKey, String.toList_ofList]
      apply List.reverse_injective
      rw [List.reverse_append, List.reverse_reverse, List.reverse_flatten, List.map_replicate, List.reverse_replicate]
      exact hn
    · rw [ownershipKey, String.toList_ofList]
      intro hsuffix
      apply hstop
      rwa [← List.reverse_suffix, List.reverse_reverse]
  · rintro ⟨⟨n, hn⟩, hstop⟩
    rw [ownershipKey, hn, List.reverse_append, List.reverse_flatten, List.map_replicate, List.reverse_replicate,
      dropReversedSuffixes_append n, List.reverse_reverse, String.ofList_toList]
    rwa [List.reverse_prefix]

theorem sharesName_iff {a b : String} : SharesName a b ↔ ownershipKey a = ownershipKey b := by
  constructor
  · rintro ⟨name, ha, hb⟩
    rw [ownershipKey_eq_iff.2 ha, ownershipKey_eq_iff.2 hb]
  · intro h
    exact ⟨_, ownershipKey_eq_iff.1 rfl, ownershipKey_eq_iff.1 h.symm⟩

instance (a b : String) : Decidable (SharesName a b) := decidable_of_iff _ sharesName_iff.symm

/-- The class entries of all roots: the directories first, each root in the order in which it lists its entries. A root
that cannot be listed has none. -/
def Inputs.entries (i : Inputs) (fs : FileSystem) : List (Root × String) :=
  (i.directories.map Root.directory ++ i.archives.map Root.archive).flatMap fun root =>
    match root.classEntries fs with
    | .ok entries => entries.map fun entry => (root, entry)
    | .error _ => []

/-- Whether one of some entries shares its name with an entry. -/
def isShadowed (earlier : List (Root × String)) (entry : String) : Bool :=
  earlier.any fun y => decide (SharesName y.2 entry)

/-- Entries that no entry in front of them shares its name with. -/
def ownedEntries (es : List (Root × String)) : List (Root × String) :=
  (es.zipIdx.filter fun x => !isShadowed (es.take x.2) x.1.2).map Prod.fst

/-- Entries that an entry in front of them shares its name with. -/
def shadowedEntries (es : List (Root × String)) : List (Root × String) :=
  (es.zipIdx.filter fun x => isShadowed (es.take x.2) x.1.2).map Prod.fst

theorem isShadowed_iff {earlier : List (Root × String)} {entry : String} :
    isShadowed earlier entry = true ↔ ∃ y ∈ earlier, ownershipKey y.2 = ownershipKey entry := by
  simp only [isShadowed, List.any_eq_true, decide_eq_true_eq, sharesName_iff]

theorem length_owned_add_shadowed (es : List (Root × String)) :
    (ownedEntries es).length + (shadowedEntries es).length = es.length := by
  have hall := List.length_eq_countP_add_countP
    (fun x : (Root × String) × Nat => isShadowed (es.take x.2) x.1.2) (l := es.zipIdx)
  simp only [Bool.not_eq_true, Bool.decide_eq_false, List.length_zipIdx] at hall
  simp only [ownedEntries, shadowedEntries, List.length_map, ← List.countP_eq_length_filter]
  omega

/-! ## Claims -/

/-- The owned ones of entries that stand behind others. -/
def ownedFrom (earlier es : List (Root × String)) : List (Root × String) :=
  ((es.zipIdx earlier.length).filter fun x => !isShadowed ((earlier ++ es).take x.2) x.1.2).map Prod.fst

theorem ownedFrom_nil_left (es : List (Root × String)) : ownedFrom [] es = ownedEntries es := rfl

theorem ownedFrom_cons (earlier es : List (Root × String)) (x : Root × String) :
    ownedFrom earlier (x :: es) =
      (if isShadowed earlier x.2 then [] else [x]) ++ ownedFrom (earlier ++ [x]) es := by
  have hrest : earlier ++ x :: es = earlier ++ [x] ++ es := by simp
  unfold ownedFrom
  rw [List.zipIdx_cons, List.filter_cons, List.take_left, ← hrest, List.length_append, List.length_singleton]
  cases isShadowed earlier x.2 <;> rfl

theorem ownedFrom_append (earlier es es' : List (Root × String)) :
    ownedFrom earlier (es ++ es') = ownedFrom earlier es ++ ownedFrom (earlier ++ es) es' := by
  induction es generalizing earlier with
  | nil =>
    rw [List.append_nil]
    rfl
  | cons x es ih =>
    rw [List.cons_append, ownedFrom_cons, ownedFrom_cons, ih, List.append_assoc, List.append_assoc]
    rfl

namespace Claims

/-- The keys that are known are those of the entries so far. -/
def Knows (c : Claims) (earlier : List (Root × String)) : Prop :=
  ∀ key, c.seen.contains key = true ↔ ∃ y ∈ earlier, ownershipKey y.2 = key

theorem knows_start : start.Knows [] := by
  intro key
  simp [start]

theorem Knows.insert {c : Claims} {earlier : List (Root × String)} (h : c.Knows earlier) (x : Root × String) :
    Knows { c with seen := c.seen.insert (ownershipKey x.2) } (earlier ++ [x]) := by
  intro key
  show (c.seen.insert (ownershipKey x.2)).contains key = true ↔ _
  rw [Std.HashSet.contains_insert, Bool.or_eq_true, h key]
  simp [or_comm]

/-- A key that is known already may be noted again. -/
theorem Knows.again {c : Claims} {earlier : List (Root × String)} (h : c.Knows earlier) {x : Root × String}
    (hx : c.seen.contains (ownershipKey x.2) = true) (n : Nat) : Knows { c with duplicates := n } (earlier ++ [x]) := by
  intro key
  show c.seen.contains key = true ↔ _
  rw [h key]
  constructor
  · rintro ⟨y, hy, hkey⟩
    exact ⟨y, List.mem_append_left _ hy, hkey⟩
  · rintro ⟨y, hy, hkey⟩
    rcases List.mem_append.1 hy with hy | hy
    · exact ⟨y, hy, hkey⟩
    · rw [List.mem_singleton.1 hy] at hkey
      rwa [← hkey, ← h]

theorem Knows.contains_eq {c : Claims} {earlier : List (Root × String)} (h : c.Knows earlier) (entry : String) :
    c.seen.contains (ownershipKey entry) = isShadowed earlier entry := by
  rw [Bool.eq_iff_iff, isShadowed_iff]
  exact h _

/-- What a claim of entries leaves: the owned ones, the keys of all, and a count of the others. -/
structure Claimed (c : Claims) (earlier es owned : List (Root × String)) (c' : Claims) : Prop where
  knows : c'.Knows (earlier ++ es)
  duplicates : c'.duplicates + owned.length = c.duplicates + es.length
  owned : owned = ownedFrom earlier es

theorem Claimed.trans {c c₁ c₂ : Claims} {earlier es es' owned owned' : List (Root × String)}
    (h : c.Claimed earlier es owned c₁) (h' : c₁.Claimed (earlier ++ es) es' owned' c₂) :
    c.Claimed earlier (es ++ es') (owned ++ owned') c₂ where
  knows := by
    rw [← List.append_assoc]
    exact h'.knows
  duplicates := by
    have hfirst := h.duplicates
    have hsecond := h'.duplicates
    simp only [List.length_append]
    omega
  owned := by rw [ownedFrom_append, h.owned, h'.owned]

theorem claimed_nil {c : Claims} {earlier : List (Root × String)} (h : c.Knows earlier) :
    c.Claimed earlier [] [] c where
  knows := by rwa [List.append_nil]
  duplicates := rfl
  owned := rfl

/-- An entry whose key is known is passed over. -/
theorem claimed_passed {c : Claims} {earlier : List (Root × String)} (h : c.Knows earlier) {x : Root × String}
    (hx : c.seen.contains (ownershipKey x.2) = true) :
    c.Claimed earlier [x] [] { c with duplicates := c.duplicates + 1 } where
  knows := h.again hx _
  duplicates := rfl
  owned := by
    rw [h.contains_eq] at hx
    rw [ownedFrom_cons, if_pos hx]
    rfl

theorem claimed_owned {c : Claims} {earlier : List (Root × String)} (h : c.Knows earlier) {x : Root × String}
    (hx : ¬ c.seen.contains (ownershipKey x.2) = true) :
    c.Claimed earlier [x] [x] { c with seen := c.seen.insert (ownershipKey x.2) } where
  knows := h.insert x
  duplicates := rfl
  owned := by
    rw [h.contains_eq] at hx
    rw [ownedFrom_cons, if_neg hx]
    rfl

theorem claim_eq {c : Claims} {earlier : List (Root × String)} (h : c.Knows earlier) (root : Root)
    (entries : List String) :
    c.Claimed earlier (entries.map fun entry => (root, entry)) ((c.claim entries).1.map fun entry => (root, entry))
      (c.claim entries).2 := by
  induction entries generalizing c earlier with
  | nil => exact claimed_nil h
  | cons entry entries ih =>
    by_cases hseen : c.seen.contains (ownershipKey entry) = true
    · have hfirst := claimed_passed (x := (root, entry)) h hseen
      have hall := hfirst.trans (ih hfirst.knows)
      unfold claim
      simp only [if_pos hseen]
      exact hall
    · have hfirst := claimed_owned (x := (root, entry)) h hseen
      have hall := hfirst.trans (ih hfirst.knows)
      unfold claim
      simp only [if_neg hseen]
      exact hall

theorem claimAll_eq {c : Claims} {earlier : List (Root × String)} (h : c.Knows earlier)
    (listings : List (Root × List String)) :
    c.Claimed earlier (listings.flatMap fun l => l.2.map fun entry => (l.1, entry))
      ((c.claimAll listings).1.flatMap fun l => l.2.map fun entry => (l.1, entry)) (c.claimAll listings).2 := by
  induction listings generalizing c earlier with
  | nil => exact claimed_nil h
  | cons listing listings ih =>
    obtain ⟨root, entries⟩ := listing
    have hfirst := claim_eq h root entries
    exact hfirst.trans (ih hfirst.knows)

end Claims

/-! ## What a rule wants -/

/-- A class that a rule registers: it can be made by anyone and is a class of its own, its name is one of those that the
patterns admit, and it is a direct relative. -/
structure Rule.Wants (r : Rule) (m : Metadata) : Prop where
  notInterface : m.isInterface = false
  notAbstract : m.isAbstract = false
  constructible : m.hasPublicNoArgConstructor = true
  included : r.included ≠ [] → ∃ p ∈ r.included, p.accepts (dottedName m.name) = true
  excluded : ∀ p ∈ r.excluded, p.accepts (dottedName m.name) = false
  related : (∃ interface ∈ m.interfaces, r.scanInterface = some interface) ∨
    r.scanInterface = none ∧ m.superName ∈ r.scanSuperClasses

theorem NameSet.contains_iff {set : NameSet} {name : String} : set.contains name = true ↔ name ∈ set :=
  List.contains_iff_mem

theorem Rule.admits_iff {r : Rule} {name : String} :
    r.admits name = true ↔
      (r.included ≠ [] → ∃ p ∈ r.included, p.accepts name = true) ∧ ∀ p ∈ r.excluded, p.accepts name = false := by
  cases hincluded : r.included <;> simp [admits, hincluded]

theorem Rule.isRelated_iff {r : Rule} {m : Metadata} :
    r.isRelated m = true ↔ (∃ interface ∈ m.interfaces, r.scanInterface = some interface) ∨
      r.scanInterface = none ∧ m.superName ∈ r.scanSuperClasses := by
  cases hinterface : r.scanInterface <;> simp [isRelated, hinterface, NameSet.contains_iff]

theorem Rule.accepts_iff {r : Rule} {m : Metadata} : r.accepts m = true ↔ r.Wants m := by
  rw [accepts]
  simp only [Bool.and_eq_true, Bool.not_eq_true', admits_iff, isRelated_iff]
  constructor
  · rintro ⟨⟨⟨⟨hinterface, habstract⟩, hconstructible⟩, hincluded, hexcluded⟩, hrelated⟩
    exact ⟨hinterface, habstract, hconstructible, hincluded, hexcluded, hrelated⟩
  · rintro ⟨hinterface, habstract, hconstructible, hincluded, hexcluded, hrelated⟩
    exact ⟨⟨⟨⟨hinterface, habstract⟩, hconstructible⟩, hincluded, hexcluded⟩, hrelated⟩

theorem Rule.contains_matching {rules : List Rule} {m : Metadata} {i : Nat} {r : Rule} (hr : rules[i]? = some r) :
    (matching rules m).contains i = true ↔ r.Wants m := by
  rw [List.contains_iff_mem, matching, List.mem_filterMap, ← accepts_iff]
  constructor
  · rintro ⟨⟨r', j⟩, hmem, hsome⟩
    obtain ⟨haccepts, rfl⟩ : r'.accepts m = true ∧ j = i := by simpa using hsome
    rw [List.mk_mem_zipIdx_iff_getElem?, hr] at hmem
    rwa [Option.some.inj hmem]
  · intro haccepts
    exact ⟨(r, i), List.mk_mem_zipIdx_iff_getElem?.2 hr, by simp [haccepts]⟩

/-! ## Scans -/

/-- The facts about the class at an entry, if the entry can be read and is a class. -/
def metadataAt (fs : FileSystem) (x : Root × String) : Option Metadata :=
  (x.1.readEntry fs x.2).toOption.bind fun data => (Metadata.read data).toOption

/-- The verdict on an entry. -/
theorem evaluate_eq (fs : FileSystem) (rules : List Rule) (x : Root × String) :
    x.1.evaluate fs rules x.2 =
      match metadataAt fs x with
      | some m => .evaluated m.name (Rule.matching rules m)
      | none => .malformed (x.1.origin x.2) := by
  unfold Root.evaluate metadataAt
  cases x.1.readEntry fs x.2 with
  | error cause => rfl
  | ok data =>
    cases hread : Metadata.read data <;> simp [Except.toOption, hread]

theorem pairwise_mergeSort_names (names : List String) : (names.mergeSort (· ≤ ·)).Pairwise (· ≤ ·) := by
  let le (a b : String) : Bool := decide (a ≤ b)
  have htrans (a b c : String) (hab : le a b = true) (hbc : le b c = true) : le a c = true :=
    decide_eq_true (String.le_trans (of_decide_eq_true hab) (of_decide_eq_true hbc))
  have htotal (a b : String) : (le a b || le b a) = true := by
    simpa [le] using String.le_total a b
  have hsorted := List.pairwise_mergeSort htrans htotal names
  simp only [le, decide_eq_true_eq] at hsorted
  exact hsorted

namespace Scan

/-- What a scan says of some entries: which classes each rule registers, and what became of every entry. -/
structure Tallies (fs : FileSystem) (rules : List Rule) (es : List (Root × String)) (s : Scan) : Prop where
  length : s.matched.length = rules.length
  matched : ∀ (i : Nat) (r : Rule) (names : NameSet), rules[i]? = some r → s.matched[i]? = some names → ∀ name : String,
    name ∈ names ↔ ∃ x ∈ ownedEntries es, ∃ m, metadataAt fs x = some m ∧ r.Wants m ∧ m.name = name
  classes : s.classCount = (ownedEntries es).countP fun x => (metadataAt fs x).isSome
  duplicates : s.duplicateCount = (shadowedEntries es).length
  ascending : s.malformed.Pairwise (· ≤ ·)
  malformed : s.malformed.Perm
    (((ownedEntries es).filter fun x => (metadataAt fs x).isNone).map fun x => x.1.origin x.2)
  total : s.classCount + s.malformed.length + s.duplicateCount = es.length

/-- What came of the owned entries. -/
def verdicts (fs : FileSystem) (rules : List Rule) (es : List (Root × String)) : List EntryVerdict :=
  (ownedEntries es).map fun x => x.1.evaluate fs rules x.2

theorem exists_matched {fs : FileSystem} {rules : List Rule} {es : List (Root × String)} {i : Nat} {r : Rule}
    (hr : rules[i]? = some r) (name : String) :
    name ∈ (verdicts fs rules es).filterMap (·.matchedBy? i) ↔
      ∃ x ∈ ownedEntries es, ∃ m, metadataAt fs x = some m ∧ r.Wants m ∧ m.name = name := by
  rw [verdicts, List.filterMap_map, List.mem_filterMap]
  apply exists_congr
  intro x
  apply and_congr_right
  intro hx
  show (x.1.evaluate fs rules x.2).matchedBy? i = some name ↔ _
  rw [evaluate_eq]
  cases metadataAt fs x with
  | none => simp [EntryVerdict.matchedBy?]
  | some m =>
    have hwants := Rule.contains_matching (m := m) hr
    simp only [EntryVerdict.matchedBy?, Option.some.injEq, exists_eq_left', ← hwants]
    cases (Rule.matching rules m).contains i <;> simp

theorem countP_isEvaluated (fs : FileSystem) (rules : List Rule) (es : List (Root × String)) :
    (verdicts fs rules es).countP (·.isEvaluated) = (ownedEntries es).countP fun x => (metadataAt fs x).isSome := by
  rw [verdicts, List.countP_map]
  apply List.countP_congr
  intro x hx
  show (x.1.evaluate fs rules x.2).isEvaluated = true ↔ _
  rw [evaluate_eq]
  cases metadataAt fs x <;> simp [EntryVerdict.isEvaluated]

theorem filterMap_malformed? (fs : FileSystem) (rules : List Rule) (es : List (Root × String)) :
    (verdicts fs rules es).filterMap (·.malformed?) =
      ((ownedEntries es).filter fun x => (metadataAt fs x).isNone).map fun x => x.1.origin x.2 := by
  rw [verdicts, List.filterMap_map]
  induction ownedEntries es with
  | nil => rfl
  | cons x xs ih =>
    rw [List.filterMap_cons, List.filter_cons, ih, Function.comp_apply, evaluate_eq]
    cases metadataAt fs x <;> rfl

/-- What is summed up of the verdicts on the owned entries. -/
theorem tallies_ofVerdicts (fs : FileSystem) (rules : List Rule) (es : List (Root × String)) {duplicates : Nat}
    (hduplicates : duplicates = (shadowedEntries es).length) :
    Tallies fs rules es (ofVerdicts rules.length duplicates (verdicts fs rules es)) where
  length := by simp [ofVerdicts]
  matched := by
    intro i r names hr hnames name
    obtain ⟨hlt, -⟩ := List.getElem?_eq_some_iff.1 hr
    have hset : NameSet.ofList ((verdicts fs rules es).filterMap (·.matchedBy? i)) = names := by
      simpa [ofVerdicts, List.getElem?_map, List.getElem?_range hlt] using hnames
    rw [← hset, NameSet.mem_ofList]
    exact exists_matched hr name
  classes := countP_isEvaluated fs rules es
  duplicates := hduplicates
  ascending := pairwise_mergeSort_names _
  malformed := by
    rw [← filterMap_malformed? fs rules es]
    exact List.mergeSort_perm _ _
  total := by
    have hperm : (ofVerdicts rules.length duplicates (verdicts fs rules es)).malformed.length =
        (ownedEntries es).countP fun x => (metadataAt fs x).isNone := by
      rw [ofVerdicts, List.length_mergeSort, filterMap_malformed?, List.length_map, List.countP_eq_length_filter]
    have hsplit := List.length_eq_countP_add_countP (fun x => (metadataAt fs x).isSome) (l := ownedEntries es)
    have hall := length_owned_add_shadowed es
    simp only [Bool.not_eq_true, Bool.decide_eq_false, Option.not_isSome] at hsplit
    rw [hperm]
    show (verdicts fs rules es).countP (·.isEvaluated) + _ + duplicates = _
    rw [countP_isEvaluated]
    omega

theorem of_eq (fs : FileSystem) (inputs : Inputs) (rules : List Rule) :
    Scan.of fs inputs rules = ofVerdicts rules.length (shadowedEntries (inputs.entries fs)).length
      (verdicts fs rules (inputs.entries fs)) := by
  have hentries : ((listings fs inputs.roots).flatMap fun l => l.2.map fun entry => (l.1, entry)) =
      inputs.entries fs := by
    rw [listings, List.flatMap_map]
    apply List.flatMap_congr
    intro root hroot
    cases root.classEntries fs <;> rfl
  obtain ⟨hknows, hduplicates, howned⟩ := Claims.claimAll_eq Claims.knows_start (listings fs inputs.roots)
  rw [hentries] at hduplicates howned
  rw [ownedFrom_nil_left] at howned
  have hall := length_owned_add_shadowed (inputs.entries fs)
  rw [howned] at hduplicates
  have hstart : Claims.start.duplicates = 0 := rfl
  unfold Scan.of
  dsimp only
  congr 1
  · omega
  · rw [verdicts, ← howned, List.map_flatMap]
    apply List.flatMap_congr
    intro l hl
    rw [List.map_map]
    rfl

end Scan

end Registrar
