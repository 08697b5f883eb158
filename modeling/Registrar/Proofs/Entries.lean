import Registrar.Proofs.Growth
import Registrar.Proofs.Shadowing

/-!
# The entries that a scan goes through

* `IsClassEntry` : the names of entries that are classes to be looked at;
* `Root.ListsClasses` : the class entries of a root, from the file tree or from the entries of an archive.
  `ListsAll` : those of all roots;
* `Root.HasEntry` : what a root holds under a name. `Root.readEntry_eq_ok_iff` : just this is read;
* `listsAll_entries` : the entries that a scan goes through are those of all roots;
* `Scan.tallies_of` : a scan finds the classes that each rule wants among the owned ones of these, and counts every one
  of them once.
-/

namespace Registrar

open FileTree (Ascending)

/-! ## Class entries -/

/-- A name ends with `.class`, and is neither the description of a module nor a variant for one version of the
platform. -/
structure IsClassEntry (entry : String) : Prop where
  isClass : ".class".toList <:+ entry.toList
  notModule : ¬ "module-info.class".toList <:+ entry.toList
  notVariant : ¬ "META-INF/versions/".toList <+: entry.toList

theorem isScannableEntry_iff {entry : String} : isScannableEntry entry = true ↔ IsClassEntry entry := by
  rw [isScannableEntry, Bool.and_eq_true, Bool.and_eq_true, Bool.not_eq_true', Bool.not_eq_true',
    List.isSuffixOf_iff_suffix, ← Bool.not_eq_true, ← Bool.not_eq_true, List.isSuffixOf_iff_suffix,
    List.isPrefixOf_iff_prefix]
  constructor
  · rintro ⟨⟨hclass, hmodule⟩, hvariant⟩
    exact ⟨hclass, hmodule, hvariant⟩
  · rintro ⟨hclass, hmodule, hvariant⟩
    exact ⟨⟨hclass, hmodule⟩, hvariant⟩

instance (entry : String) : Decidable (IsClassEntry entry) := decidable_of_iff _ isScannableEntry_iff

/-- The name of a class is not that of a directory. -/
theorem isDirectoryName_of_isClass {entry : String} (h : ".class".toList <:+ entry.toList) :
    Archive.isDirectoryName entry = false := by
  obtain ⟨front, hfront⟩ := h
  have hlast : entry.toList.getLast? = some 's' := by
    rw [← hfront, List.getLast?_append]
    rfl
  rw [Archive.isDirectoryName, hlast]
  rfl

/-! ## The class entries of a root -/

/-- An entry of an archive that cannot be opened. -/
def ArchiveEntry.IsRefused (e : ArchiveEntry) : Prop := ∃ cause, e.content = .refused cause

theorem EntryContent.refusal?_eq_some_iff {content : EntryContent} {cause : String} :
    content.refusal? = some cause ↔ content = .refused cause := by
  cases content <;> simp [refusal?]

theorem Archive.refusal?_eq_none_iff {archive : Archive} :
    archive.refusal? = none ↔ ∀ e ∈ archive, ¬ e.IsRefused := by
  rw [Archive.refusal?, List.findSome?_eq_none_iff]
  refine forall₂_congr fun e he => ?_
  rw [Option.eq_none_iff_forall_ne_some, ArchiveEntry.IsRefused, not_exists]
  exact forall_congr' fun cause => not_congr EntryContent.refusal?_eq_some_iff

namespace FileSystem

/-- A directory that cannot be listed at all lists nothing. -/
theorem not_lists_of_filesBelow_eq_error {fs : FileSystem} {path : String} {error : AccessError}
    (h : fs.filesBelow true path = .error error) (name : String) : ¬ fs.Lists path name := by
  rintro ⟨place, tree, q, hfind, hdirectory, hlisted, -⟩
  unfold filesBelow at h
  rw [hfind] at h
  dsimp only at h
  rw [hdirectory, Bool.not_true, if_neg Bool.false_ne_true] at h
  cases hwalk : tree.walk true (Path.room path) with
  | ok places =>
    rw [hwalk] at h
    cases h
  | error place' => exact FileTree.not_listed_of_walk_lenient hwalk q hlisted

theorem lists_iff_mem_filesBelow {fs : FileSystem} (hsound : fs.root.Sound) {path name : String} :
    fs.Lists path name ↔ name ∈ (fs.filesBelow true path).toOption.getD [] := by
  cases hnames : fs.filesBelow true path with
  | ok names => exact (mem_filesBelow_iff hsound hnames).symm
  | error error =>
    exact ⟨fun hlists => absurd hlists (not_lists_of_filesBelow_eq_error hnames name), fun hname => by cases hname⟩

end FileSystem

/-- The class entries of a root. Those of a directory are what it lists, in the order of a listing; those of an archive
are the entries that it stores, in the order of their names. An archive that cannot be opened has none, and neither has
one of which an entry is refused. -/
def Root.ListsClasses (fs : FileSystem) (entries : List String) : Root → Prop
  | .directory path => Ascending (entries.map Path.pieces) ∧
    ∀ entry, entry ∈ entries ↔ fs.Lists path entry ∧ IsClassEntry entry
  | .archive path => entries.Pairwise (· ≤ ·) ∧
    ((∃ stored, fs.Stores path stored ∧ (∀ e ∈ stored, ¬ e.IsRefused) ∧
        entries.Perm ((stored.map (·.name)).filter fun name => IsClassEntry name)) ∨
      (∀ stored, fs.Stores path stored → ∃ e ∈ stored, e.IsRefused) ∧ entries = [])

/-- The class entries of some roots, one root after the other. -/
inductive ListsAll (fs : FileSystem) : List Root → List (Root × String) → Prop
  | nil : ListsAll fs [] []
  | cons {root : Root} {roots : List Root} {entries : List String} {others : List (Root × String)} :
      root.ListsClasses fs entries → ListsAll fs roots others →
      ListsAll fs (root :: roots) (entries.map (fun entry => (root, entry)) ++ others)

/-- What a root holds under a name. -/
def Root.HasEntry (fs : FileSystem) (entry : String) (data : List UInt8) : Root → Prop
  | .directory path => fs.Yields (Path.join path entry) data
  | .archive path => ∃ stored e, fs.Stores path stored ∧ List.find? (·.name == entry) stored = some e ∧
    e.content = .bytes data

namespace Root

variable {fs : FileSystem} {root : Root} {entry : String}

theorem readEntry_eq_ok_iff {data : List UInt8} : root.readEntry fs entry = .ok data ↔ root.HasEntry fs entry data := by
  cases root with
  | directory path => exact FileSystem.readFile_eq_ok_iff
  | archive path =>
    show fs.readEntry path entry = .ok data ↔ ∃ stored e, fs.Stores path stored ∧
      List.find? (·.name == entry) stored = some e ∧ e.content = .bytes data
    unfold FileSystem.readEntry
    constructor
    · intro h
      cases hopen : fs.openArchive path with
      | error cause =>
        rw [hopen] at h
        cases h
      | ok stored =>
        rw [hopen] at h
        replace h := Except.mapError_eq_ok_iff.1 h
        unfold Archive.read Archive.find? at h
        cases hfind : List.find? (·.name == entry) stored with
        | none =>
          rw [hfind] at h
          cases h
        | some e =>
          rw [hfind] at h
          exact ⟨stored, e, FileSystem.openArchive_eq_ok_iff.1 hopen, hfind, EntryContent.read_eq_ok_iff.1 h⟩
    · rintro ⟨stored, e, hstores, hfind, hcontent⟩
      rw [FileSystem.openArchive_eq_ok_iff.2 hstores]
      refine Except.mapError_eq_ok_iff.2 ?_
      unfold Archive.read Archive.find?
      rw [hfind]
      exact EntryContent.read_eq_ok_iff.2 hcontent

/-- What is listed of a directory, as far as it is wanted. -/
theorem listsClasses_of_listing {path : String} {names : List String} (h : fs.Listing path names) :
    (directory path).ListsClasses fs (names.filter isScannableEntry) := by
  refine ⟨h.ascending.sublist (List.filter_sublist.map _), fun entry => ?_⟩
  rw [List.mem_filter, h.mem_iff, isScannableEntry_iff]

/-- The class entries that a scan takes from a root. A root that cannot be listed has none. -/
theorem listsClasses_of_classEntries (hsound : fs.root.Sound) (root : Root) :
    root.ListsClasses fs (match root.classEntries fs with | .ok entries => entries | .error _ => []) := by
  cases root with
  | directory path =>
    rw [classEntries]
    by_cases hdirectory : fs.isDirectory path = true
    · rw [if_pos hdirectory]
      cases hnames : fs.filesBelow true path with
      | ok names => exact listsClasses_of_listing (FileSystem.listing_of_filesBelow hsound hnames)
      | error error =>
        refine ⟨.nil, fun entry => ⟨fun hentry => absurd hentry List.not_mem_nil, fun ⟨hlists, _⟩ => ?_⟩⟩
        exact absurd hlists (FileSystem.not_lists_of_filesBelow_eq_error hnames entry)
    · rw [if_neg hdirectory]
      exact listsClasses_of_listing (FileSystem.listing_nil_of_not_isDirectory hdirectory)
  | archive path =>
    rw [classEntries, FileSystem.archiveNames]
    cases hopen : fs.openArchive path with
    | error error =>
      refine ⟨.nil, .inr ⟨fun stored hstores => ?_, rfl⟩⟩
      rw [FileSystem.openArchive_eq_ok_iff.2 hstores] at hopen
      cases hopen
    | ok stored =>
      have hstores := FileSystem.openArchive_eq_ok_iff.1 hopen
      dsimp only
      cases hrefusal : stored.refusal? with
      | some cause =>
        refine ⟨.nil, .inr ⟨fun stored' hstores' => ?_, rfl⟩⟩
        obtain rfl := hstores.unique hstores'
        by_contra hnone
        rw [Archive.refusal?_eq_none_iff.2 (by simpa using hnone)] at hrefusal
        cases hrefusal
      | none =>
        refine ⟨(pairwise_mergeSort_names _).filter _, .inl ⟨stored, hstores, Archive.refusal?_eq_none_iff.1 hrefusal, ?_⟩⟩
        refine ((List.mergeSort_perm _ _).filter _).trans (List.Perm.of_eq ?_)
        -- the name of a class is not that of a directory
        rw [Archive.files, List.filter_map, List.filter_map, List.filter_filter]
        congr 1
        refine List.filter_congr fun e he => ?_
        show (isScannableEntry e.name && !Archive.isDirectoryName e.name) = decide (IsClassEntry e.name)
        rw [Bool.eq_iff_iff, Bool.and_eq_true, isScannableEntry_iff, decide_eq_true_iff, Bool.not_eq_true']
        exact ⟨fun h => h.1, fun h => ⟨h, isDirectoryName_of_isClass h.isClass⟩⟩

end Root

/-- A root has one list of class entries. -/
theorem Root.ListsClasses.unique {fs : FileSystem} {root : Root} {entries entries' : List String}
    (h : root.ListsClasses fs entries) (h' : root.ListsClasses fs entries') : entries = entries' := by
  cases root with
  | directory path =>
    exact FileSystem.eq_of_ascending h.1 h'.1 fun entry => (h.2 entry).trans (h'.2 entry).symm
  | archive path =>
    obtain ⟨hsorted, ⟨stored, hstores, hopened, hperm⟩ | ⟨hrefused, rfl⟩⟩ := h <;>
      obtain ⟨hsorted', ⟨stored', hstores', hopened', hperm'⟩ | ⟨hrefused', rfl⟩⟩ := h'
    · obtain rfl := hstores.unique hstores'
      exact (hperm.trans hperm'.symm).eq_of_pairwise (fun _ _ _ _ => String.le_antisymm) hsorted hsorted'
    · obtain ⟨e, he, hnot⟩ := hrefused' stored hstores
      exact absurd hnot (hopened e he)
    · obtain ⟨e, he, hnot⟩ := hrefused stored' hstores'
      exact absurd hnot (hopened' e he)
    · rfl

theorem ListsAll.unique {fs : FileSystem} {roots : List Root} {es es' : List (Root × String)} (h : ListsAll fs roots es)
    (h' : ListsAll fs roots es') : es = es' := by
  induction h generalizing es' with
  | nil =>
    cases h'
    rfl
  | cons hroot _ ih =>
    cases h' with
    | cons hroot' hothers' => rw [hroot.unique hroot', ih hothers']

/-- The entries of all roots are what the roots list. -/
theorem listsAll_entries {fs : FileSystem} (hsound : fs.root.Sound) (inputs : Inputs) :
    ListsAll fs (inputs.directories.map Root.directory ++ inputs.archives.map Root.archive) (inputs.entries fs) := by
  unfold Inputs.entries
  generalize inputs.directories.map Root.directory ++ inputs.archives.map Root.archive = roots
  induction roots with
  | nil => exact .nil
  | cons root roots ih =>
    have hroot := root.listsClasses_of_classEntries hsound
    rw [List.flatMap_cons]
    cases hentries : root.classEntries fs with
    | ok entries =>
      rw [hentries] at hroot
      exact .cons hroot ih
    | error error =>
      rw [hentries] at hroot
      exact .cons hroot ih

theorem metadataAt_eq_some_iff {fs : FileSystem} {root : Root} {entry : String} {m : Metadata} :
    metadataAt fs (root, entry) = some m ↔ ∃ data, root.HasEntry fs entry data ∧ Metadata.read data = .ok m := by
  simp only [metadataAt, Option.bind_eq_some_iff, Except.toOption_eq_some_iff, Root.readEntry_eq_ok_iff]

namespace Scan

/-- **What a scan finds.** The entries are those that the roots list, the directories first. One of them is owned if no
entry in front of it shares its name. A scan gives each rule the names of the classes that it wants among the owned
entries. Those of them that cannot be read as classes are listed, in ascending order, and the entries that are not owned
are counted. No entry is left out, and none is counted twice. -/
theorem tallies_of {fs : FileSystem} (hsound : fs.root.Sound) (inputs : Inputs) (rules : List Rule) :
    ∃ es, ListsAll fs (inputs.directories.map Root.directory ++ inputs.archives.map Root.archive) es ∧
      Tallies fs rules es (Scan.of fs inputs rules) ∧ ∀ root entry m, metadataAt fs (root, entry) = some m ↔
        ∃ data, root.HasEntry fs entry data ∧ Metadata.read data = .ok m := by
  refine ⟨inputs.entries fs, listsAll_entries hsound inputs, ?_, fun root entry m => metadataAt_eq_some_iff⟩
  rw [of_eq]
  exact tallies_ofVerdicts fs rules _ rfl

end Scan

/-- A class that can be made without arguments. -/
def registrant : ClassFile where
  minorVersion := 0
  majorVersion := 61
  pool := ⟨#[.unusable, .ofText "B", .classRef 1, .ofText "java/lang/Object", .classRef 3, .ofText "<init>",
    .ofText "()V"]⟩
  access := ⟨0x21⟩
  thisClass := 2
  superClass := 4
  interfaces := []
  fields := []
  methods := [⟨⟨1⟩, 5, 6, []⟩]
  attributes := []

def registrantBytes : List UInt8 :=
  match registrant.encode with
  | .ok bytes => bytes
  | .error _ => []

/-- Rules by which classes register all classes that can be made. -/
def rulesFor (targets : List String) : List Rule :=
  targets.filterMap fun target => (Rule.ofConfig ⟨"", ["java.lang.Object"], [], [], target, "", "r"⟩).toOption

theorem exists_first_rule {rules : List Rule} {target : String} {others : List String}
    (h : rules.map (·.targetClass) = target :: others) : ∃ r, rules[0]? = some r ∧ r.targetClass = target := by
  obtain ⟨r, rest, rfl, htarget, -⟩ := List.map_eq_cons_iff.1 h
  exact ⟨r, rfl, htarget⟩

namespace Scan

/-- The class `B` in a directory and in an archive, and an archive with a class that cannot be read. -/
def besideCorrupt : FileSystem where
  root := .directory .full [("in", .directory .full [("B.class", .file .full (.ofBytes registrantBytes))]),
    ("first.jar", .file .full (.ofArchive [⟨"B.class", .bytes []⟩])),
    ("second.jar", .file .full (.ofArchive [⟨"A.class", .corrupt⟩]))]
  workingDirectory := []

/-- The directory and the archives. -/
def withCorrupt : Inputs := ⟨["in"], ["first.jar", "second.jar"]⟩

theorem sound_besideCorrupt : besideCorrupt.root.Sound := by
  simp only [besideCorrupt, FileTree.sound_directory_iff, FileTree.sound_file, List.forall_mem_cons]
  simp
  decide

theorem tallies_of_besideCorrupt : ∃ es,
    ListsAll besideCorrupt [.directory "in", .archive "first.jar", .archive "second.jar"] es ∧ es.length = 3 ∧
    (Scan.of besideCorrupt withCorrupt (rulesFor ["a"])).classCount = 1 ∧
    (Scan.of besideCorrupt withCorrupt (rulesFor ["a"])).duplicateCount = 1 ∧
    (Scan.of besideCorrupt withCorrupt (rulesFor ["a"])).malformed = ["second.jar!/A.class"] ∧
    (Scan.of besideCorrupt withCorrupt (rulesFor ["a"])).matched = [.ofList ["B"]] := by
  obtain ⟨es, hlists, htallies, -⟩ := tallies_of sound_besideCorrupt withCorrupt (rulesFor ["a"])
  have htotal := htallies.total
  have hscan : Scan.of besideCorrupt withCorrupt (rulesFor ["a"]) =
      ⟨1, 1, ["second.jar!/A.class"], [.ofList ["B"]]⟩ := by
    rw [of_eq]
    decide +kernel
  rw [hscan] at htotal ⊢
  exact ⟨es, hlists, htotal.symm, rfl, rfl, rfl, rfl⟩

end Scan

end Registrar
