import Mathlib.Data.List.Induction
import Registrar.Proofs.Lasting

/-!
# Archives that merge their inputs

* `Item`, `Root.Items` : the files of a root, each with where it is read.
* `Collects` : the files of all roots, one root after the other. Each root is looked at when some entries of the archive
  are written, and its files are read when more are;
* `repeats` : the names in a list that stand behind an equal one;
* `Merges` : an archive has the first file with each name, and the report says what became of each;
* `AssemblyState.Merged` : what was put together so far, kept by each file (`merged_accept`) and by each root
  (`merged_acceptRoot`);
* `merges_of_assemble` : an assembled archive merges what the roots hold.
-/

namespace Registrar

/-! ## Lists of names -/

/-- The names in a list that stand behind an equal one. -/
def repeats (names : List String) : List String :=
  (names.zipIdx.filter fun x => (names.take x.2).contains x.1).map Prod.fst

theorem repeats_concat (names : List String) (name : String) :
    repeats (names ++ [name]) = repeats names ++ if names.contains name then [name] else [] := by
  have hfront : ((names.zipIdx).filter fun x => ((names ++ [name]).take x.2).contains x.1) =
      names.zipIdx.filter fun x => (names.take x.2).contains x.1 := by
    apply List.filter_congr
    intro x hx
    obtain ⟨hlt, -⟩ := List.getElem?_eq_some_iff.1 (List.mem_zipIdx_iff_getElem?.1 hx)
    rw [List.take_append_of_le_length (Nat.le_of_lt hlt)]
  unfold repeats
  rw [List.zipIdx_append, List.filter_append, List.map_append, hfront, List.zipIdx_singleton, Nat.zero_add,
    List.filter_singleton, List.take_left]
  cases names.contains name <;> rfl

theorem eraseDups_concat (names : List String) (name : String) :
    (names ++ [name]).eraseDups = names.eraseDups ++ if names.contains name then [] else [name] := by
  rw [List.eraseDups_append, List.removeAll, List.filter_singleton, List.elem_eq_contains]
  cases names.contains name <;> rfl

theorem length_eraseDups_add_repeats (names : List String) :
    names.eraseDups.length + (repeats names).length = names.length := by
  induction names using List.reverseRecOn with
  | nil => rfl
  | append_singleton names name ih =>
    rw [eraseDups_concat, repeats_concat, List.length_append, List.length_append, List.length_append]
    cases names.contains name <;> simp <;> omega

theorem nodup_eraseDups (names : List String) : names.eraseDups.Nodup := by
  induction names using List.reverseRecOn with
  | nil => simp
  | append_singleton names name ih =>
    rw [eraseDups_concat]
    by_cases h : names.contains name = true
    · rw [if_pos h, List.append_nil]
      exact ih
    · rw [if_neg h, List.nodup_append]
      refine ⟨ih, by simp, ?_⟩
      intro a ha b hb
      rw [List.mem_singleton.1 hb]
      rintro rfl
      exact h (List.contains_iff_mem.2 (List.mem_eraseDups.1 ha))

/-! ## What roots hold -/

/-- Whether a name stands for a directory of an archive. -/
def Archive.NamesDirectory (name : String) : Prop := ['/'] <:+ name.toList ∨ ['\\'] <:+ name.toList

instance (name : String) : Decidable (Archive.NamesDirectory name) := inferInstanceAs (Decidable (_ ∨ _))

theorem Archive.isDirectoryName_eq (name : String) : isDirectoryName name = decide (NamesDirectory name) := by
  have hends (c : Char) : [c] <:+ name.toList ↔ name.toList.getLast? = some c := by
    rw [List.getLast?_eq_some_iff]
    exact exists_congr fun front => eq_comm
  unfold isDirectoryName
  rw [Bool.eq_iff_iff, decide_eq_true_iff, NamesDirectory, hends, hends]
  cases name.toList.getLast? <;> simp

/-- Where a file of a root is read. -/
inductive Source where
  | file (path : String)
  /-- The entry at an index of an archive that was opened when the one that is assembled had `opened` entries. -/
  | entry (path : String) (index opened : Nat)
  deriving DecidableEq

/-- A file of a root. -/
structure Item where
  name : String
  source : Source
  deriving DecidableEq

/-- What is read of a file when the first `now` entries of an archive are written. -/
def Source.Reads (during : Surroundings) (archive : Archive) (now : Nat) (data : List UInt8) : Source → Prop
  | file path => (during (archive.take now) (archive.take now)).Yields path data
  | entry path index opened => ∃ entries e, (during (archive.take opened) (archive.take now)).Stores path entries ∧
    entries[index]? = some e ∧ e.content = .bytes data

/-- What a root holds when the first `now` entries of an archive are written: the files below a directory as they are
listed, if all of it can be listed, or the entries of an archive as they are stored, but for those that stand for
directories. -/
def Root.Items (during : Surroundings) (archive : Archive) (now : Nat) (items : List Item) : Root → Prop
  | .directory path => ∃ names, (during (archive.take now) (archive.take now)).Listing path names ∧
    (during (archive.take now) (archive.take now)).Unblocked path ∧
    items = names.map fun name => ⟨name, .file (Path.join path name)⟩
  | .archive path => ∃ entries, (during (archive.take now) (archive.take now)).Stores path entries ∧
    items = (entries.zipIdx.filter fun x => ¬ Archive.NamesDirectory x.1.name).map fun x =>
      ⟨x.1.name, .entry path x.2 now⟩

/-- What roots hold, one after the other, behind the files of earlier roots. When a root is looked at, each name so far
has an entry. -/
inductive Collects (during : Surroundings) (archive : Archive) : List Item → List Root → List Item → Prop
  | nil {before : List Item} : Collects during archive before [] []
  | cons {before own others : List Item} {root : Root} {roots : List Root} :
      root.Items during archive (before.map (·.name)).eraseDups.length own →
      Collects during archive (before ++ own) roots others → Collects during archive before (root :: roots) (own ++ others)

/-- What a part of the roots holds is a part of what all hold. -/
theorem Collects.exists_append {during : Surroundings} {archive : Archive} {before items : List Item}
    {front behind : List Root} (h : Collects during archive before (front ++ behind) items) :
    ∃ first rest, items = first ++ rest ∧ Collects during archive before front first ∧
      Collects during archive (before ++ first) behind rest := by
  induction front generalizing before items with
  | nil =>
    refine ⟨[], items, rfl, .nil, ?_⟩
    rwa [List.append_nil]
  | cons root front ih =>
    cases h with
    | @cons _ own others _ _ hown hothers =>
      obtain ⟨first, rest, rfl, hfirst, hrest⟩ := ih hothers
      refine ⟨own ++ first, rest, (List.append_assoc ..).symm, .cons hown hfirst, ?_⟩
      rwa [← List.append_assoc]

theorem Item.name_of_find? {items : List Item} {name : String} {item : Item}
    (h : items.find? (·.name == name) = some item) : item.name = name := by
  simpa using List.find?_some h

/-! ## What an archive holds -/

/-- What belongs into an archive under a name behind the first `now` entries: what is read then of the copy of the entry,
if there is one, and else of the first file with the name. -/
def Belongs (during : Surroundings) (substitutions : List (String × String)) (archive : Archive) (items : List Item)
    (now : Nat) (name : String) (data : List UInt8) : Prop :=
  match substitutions.lookup name with
  | some copy => Source.Reads during archive now data (.file copy)
  | none => ∃ item, items.find? (·.name == name) = some item ∧ item.source.Reads during archive now data

/-- It does not change when more files come. -/
theorem Belongs.append {during : Surroundings} {substitutions : List (String × String)} {archive : Archive}
    {items : List Item} {now : Nat} {name : String} {data : List UInt8}
    (h : Belongs during substitutions archive items now name data) (more : List Item) :
    Belongs during substitutions archive (items ++ more) now name data := by
  unfold Belongs at h ⊢
  split at h
  · exact h
  · obtain ⟨item, hfirst, hreads⟩ := h
    exact ⟨item, by rw [List.find?_append, hfirst, Option.some_or], hreads⟩

/-- What an archive and the report on it say of the files that were merged. -/
structure Merges (during : Surroundings) (substitutions : List (String × String)) (items : List Item) (archive : Archive)
    (report : AssemblyReport) : Prop where
  names : archive.map (·.name) = (items.map (·.name)).eraseDups
  distinct : (archive.map (·.name)).Nodup
  content (k : Nat) (e : ArchiveEntry) : archive[k]? = some e →
    ∃ data, e.content = .bytes data ∧ Belongs during substitutions archive items k e.name data
  entryCount : report.entryCount = (items.map (·.name)).eraseDups.length
  duplicates : report.duplicates = repeats (items.map (·.name))
  total : report.entryCount + report.duplicates.length = items.length
  substituted : report.substituted =
    (items.map (·.name)).eraseDups.filter fun name => (substitutions.lookup name).isSome

/-- An archive has one entry for a name of a file. It holds what belongs there. -/
theorem Merges.exists_entry {during : Surroundings} {substitutions : List (String × String)} {items : List Item}
    {archive : Archive} {report : AssemblyReport} (h : Merges during substitutions items archive report) {name : String}
    (hname : name ∈ items.map (·.name)) : ∃ k data, archive[k]? = some ⟨name, .bytes data⟩ ∧
      archive.filter (·.name == name) = [⟨name, .bytes data⟩] ∧
      Belongs during substitutions archive items k name data := by
  have hmem : name ∈ archive.map (·.name) := by rwa [h.names, List.mem_eraseDups]
  obtain ⟨⟨_, content⟩, hentry, rfl⟩ := List.mem_map.1 hmem
  obtain ⟨k, hk⟩ := List.mem_iff_getElem?.1 hentry
  obtain ⟨data, rfl, hbelongs⟩ := h.content k _ hk
  refine ⟨k, data, hk, ?_, hbelongs⟩
  -- no other entry has the name
  obtain ⟨front, behind, hsplit⟩ := List.append_of_mem hentry
  have hdistinct := h.distinct
  rw [hsplit, List.map_append, List.map_cons, List.nodup_append, List.nodup_cons] at hdistinct
  obtain ⟨-, ⟨hbehind, -⟩, hfront⟩ := hdistinct
  have hnone_front : front.filter (·.name == _) = [] := List.filter_eq_nil_iff.2 fun e he heq =>
    hfront _ (List.mem_map_of_mem he) _ List.mem_cons_self (beq_iff_eq.1 heq)
  have hnone_behind : behind.filter (·.name == _) = [] := List.filter_eq_nil_iff.2 fun e he heq =>
    hbehind (List.mem_map.2 ⟨e, he, beq_iff_eq.1 heq⟩)
  simp [hsplit, hnone_front, hnone_behind]

/-! ## File systems that keep still -/

/-- Surroundings in which nothing changes. -/
def Surroundings.still (fs : FileSystem) : Surroundings := fun _ _ => fs

def Source.path : Source → String
  | file path => path
  | entry path _ _ => path

section

variable {during : Surroundings} {fs : FileSystem} {place : List String} {archive : Archive}

/-- What is read is read from the file system itself, but for the file that changes. -/
theorem Source.reads_iff (haround : during.Around fs place) {source : Source}
    (hclear : fs.destination source.path ≠ place) {now : Nat} {data : List UInt8} :
    source.Reads during archive now data ↔ source.Reads (.still fs) archive now data := by
  cases source with
  | file path => exact haround.yields_iff _ _ hclear
  | entry path index opened =>
    refine exists_congr fun entries => exists_congr fun e => and_congr_left fun _ => ?_
    exact haround.stores_iff _ _ hclear

theorem Root.items_iff (haround : during.Around fs place) {root : Root}
    (hclear : ∀ path, root = .archive path → fs.destination path ≠ place) {now : Nat} {own : List Item} :
    root.Items during archive now own ↔ root.Items (.still fs) archive now own := by
  cases root with
  | directory path =>
    exact exists_congr fun names => and_congr (haround.listing_iff _ _) (and_congr_left fun _ => haround.unblocked_iff _ _)
  | archive path =>
    refine exists_congr fun entries => and_congr_left fun _ => ?_
    exact haround.stores_iff _ _ (hclear path rfl)

/-- The roots hold what they hold in the file system itself, if no archive is the file that changes. -/
theorem Collects.still (haround : during.Around fs place) {before items : List Item} {roots : List Root}
    (h : Collects during archive before roots items)
    (hclear : ∀ path, .archive path ∈ roots → fs.destination path ≠ place) :
    Collects (.still fs) archive before roots items := by
  induction h with
  | nil => exact .nil
  | cons hown _ ih =>
    refine .cons ((Root.items_iff haround ?_).1 hown) (ih fun path hpath => hclear path (List.mem_cons_of_mem _ hpath))
    rintro path rfl
    exact hclear path List.mem_cons_self

end

/-- An archive is still a merge if the same is read elsewhere. -/
theorem Merges.of_reads {during during' : Surroundings} {substitutions : List (String × String)} {items : List Item}
    {archive : Archive} {report : AssemblyReport} (h : Merges during substitutions items archive report)
    (hcopies : ∀ name copy, substitutions.lookup name = some copy → ∀ now data,
      Source.Reads during archive now data (.file copy) → Source.Reads during' archive now data (.file copy))
    (hitems : ∀ item ∈ items, ∀ now data, item.source.Reads during archive now data →
      item.source.Reads during' archive now data) : Merges during' substitutions items archive report := by
  refine ⟨h.names, h.distinct, fun k e he => ?_, h.entryCount, h.duplicates, h.total, h.substituted⟩
  obtain ⟨data, hdata, hbelongs⟩ := h.content k e he
  refine ⟨data, hdata, ?_⟩
  unfold Belongs at hbelongs ⊢
  split at hbelongs
  · next copy hlookup => exact hcopies _ copy hlookup k data hbelongs
  · obtain ⟨item, hfirst, hreads⟩ := hbelongs
    exact ⟨item, hfirst, hitems item (List.mem_of_find?_eq_some hfirst) k data hreads⟩

section

variable {fs : FileSystem} {archive archive' : Archive}

theorem Source.Reads.unique {source : Source} {now now' : Nat} {data data' : List UInt8}
    (h : source.Reads (.still fs) archive now data) (h' : source.Reads (.still fs) archive' now' data') :
    data = data' := by
  cases source with
  | file path => exact FileSystem.Yields.unique h h'
  | entry path index opened =>
    obtain ⟨entries, e, hstores, hentry, hcontent⟩ := h
    obtain ⟨entries', e', hstores', hentry', hcontent'⟩ := h'
    obtain rfl := FileSystem.Stores.unique hstores hstores'
    obtain rfl := Option.some.inj (hentry.symm.trans hentry')
    exact EntryContent.bytes.inj (hcontent.symm.trans hcontent')

theorem Root.Items.unique {root : Root} {now : Nat} {own own' : List Item} (h : root.Items (.still fs) archive now own)
    (h' : root.Items (.still fs) archive' now own') : own = own' := by
  cases root with
  | directory path =>
    obtain ⟨names, hlisting, -, rfl⟩ := h
    obtain ⟨names', hlisting', -, rfl⟩ := h'
    rw [FileSystem.Listing.unique hlisting hlisting']
  | archive path =>
    obtain ⟨entries, hstores, rfl⟩ := h
    obtain ⟨entries', hstores', rfl⟩ := h'
    rw [FileSystem.Stores.unique hstores hstores']

/-- In a file system that keeps still, roots hold one list of files. -/
theorem Collects.unique {before items items' : List Item} {roots : List Root}
    (h : Collects (.still fs) archive before roots items) (h' : Collects (.still fs) archive' before roots items') :
    items = items' := by
  induction h generalizing items' with
  | nil =>
    cases h'
    rfl
  | cons hown _ ih =>
    cases h' with
    | cons hown' hothers' =>
      obtain rfl := hown.unique hown'
      rw [ih hothers']

/-- These files have one merge. -/
theorem Merges.unique {substitutions : List (String × String)} {items : List Item} {report report' : AssemblyReport}
    (h : Merges (.still fs) substitutions items archive report)
    (h' : Merges (.still fs) substitutions items archive' report') : archive = archive' := by
  have hnames : archive.map (·.name) = archive'.map (·.name) := h.names.trans h'.names.symm
  refine List.ext_getElem? fun k => ?_
  have hname := congrArg (fun names : List String => names[k]?) hnames
  simp only [List.getElem?_map] at hname
  cases he : archive[k]? with
  | none =>
    rw [he, Option.map_none] at hname
    exact (Option.map_eq_none_iff.1 hname.symm).symm
  | some e =>
    rw [he, Option.map_some] at hname
    obtain ⟨e', he', hname'⟩ := Option.map_eq_some_iff.1 hname.symm
    obtain ⟨data, hdata, hbelongs⟩ := h.content k e he
    obtain ⟨data', hdata', hbelongs'⟩ := h'.content k e' he'
    have hsame : data = data' := by
      unfold Belongs at hbelongs hbelongs'
      rw [hname'] at hbelongs'
      split at hbelongs
      · next copy hlookup =>
        rw [hlookup] at hbelongs'
        exact Source.Reads.unique hbelongs hbelongs'
      · next hnone =>
        rw [hnone] at hbelongs'
        obtain ⟨item, hfirst, hreads⟩ := hbelongs
        obtain ⟨item', hfirst', hreads'⟩ := hbelongs'
        obtain rfl := Option.some.inj (hfirst.symm.trans hfirst')
        exact hreads.unique hreads'
    rw [he', Option.some.injEq]
    obtain ⟨name, content⟩ := e
    obtain ⟨name', content'⟩ := e'
    cases hname'
    cases hdata
    cases hdata'
    rw [hsame]

end

/-- What a root holds in a file system. -/
def Root.collect (fs : FileSystem) (now : Nat) : Root → Except AccessError (List Item)
  | .directory path =>
    if fs.isDirectory path then
      (fs.filesBelow false path).map fun names => names.map fun name => ⟨name, .file (Path.join path name)⟩
    else .ok []
  | .archive path => (fs.openArchive path).map fun entries =>
    (entries.zipIdx.filter fun x => ¬ Archive.NamesDirectory x.1.name).map fun x => ⟨x.1.name, .entry path x.2 now⟩

/-- What roots hold in a file system, behind the files of earlier roots. -/
def collectAll (fs : FileSystem) : List Item → List Root → Except AccessError (List Item)
  | _, [] => .ok []
  | before, root :: roots =>
    match root.collect fs (before.map (·.name)).eraseDups.length with
    | .error error => .error error
    | .ok own => (collectAll fs (before ++ own) roots).map (own ++ ·)

section

variable {fs : FileSystem}

theorem Root.items_of_collect (hsound : fs.root.Sound) (archive : Archive) {root : Root} {now : Nat} {own : List Item}
    (h : root.collect fs now = .ok own) : root.Items (.still fs) archive now own := by
  cases root with
  | directory path =>
    rw [collect] at h
    split at h
    · obtain ⟨names, hnames, rfl⟩ := Except.map_eq_ok_iff.1 h
      exact ⟨names, FileSystem.listing_of_filesBelow hsound hnames, FileSystem.unblocked_of_filesBelow hnames, rfl⟩
    · next hnot =>
      cases h
      exact ⟨[], FileSystem.listing_nil_of_not_isDirectory hnot, FileSystem.unblocked_of_not_isDirectory hnot, rfl⟩
  | archive path =>
    obtain ⟨entries, hopen, rfl⟩ := Except.map_eq_ok_iff.1 h
    exact ⟨entries, FileSystem.openArchive_eq_ok_iff.1 hopen, rfl⟩

theorem collects_of_collectAll (hsound : fs.root.Sound) (archive : Archive) {before items : List Item} {roots : List Root}
    (h : collectAll fs before roots = .ok items) : Collects (.still fs) archive before roots items := by
  induction roots generalizing before items with
  | nil =>
    cases h
    exact .nil
  | cons root roots ih =>
    rw [collectAll] at h
    split at h
    · cases h
    · next own hown =>
      obtain ⟨others, hothers, rfl⟩ := Except.map_eq_ok_iff.1 h
      exact .cons (Root.items_of_collect hsound archive hown) (ih hothers)

end

/-! ## The archive so far -/

namespace AssemblyState

/-- What is to be stored under a name. -/
def toStore (during : Surroundings) (substitutions : List (String × String)) (name : String)
    (original : Archive → Except AccessError (List UInt8)) (now : Archive) : Except AccessError (List UInt8) :=
  match substitutions.lookup name with
  | some copy => (during now now).readFile copy
  | none => original now

/-- The state after a file whose name is free. -/
def store (substitutions : List (String × String)) (name : String) (data : List UInt8) (s : AssemblyState) :
    AssemblyState :=
  { s with substituted := ((substitutions.lookup name).map fun _ => name).toList ++ s.substituted }.push name data

@[simp] theorem archive_start : start.archive = [] := rfl

@[simp] theorem archive_store (substitutions : List (String × String)) (name : String) (data : List UInt8)
    (s : AssemblyState) : (s.store substitutions name data).archive = s.archive ++ [⟨name, .bytes data⟩] :=
  List.reverse_cons

/-- The state after some files, on the way to an archive. -/
structure Merged (during : Surroundings) (substitutions : List (String × String)) (archive : Archive)
    (items : List Item) (s : AssemblyState) : Prop where
  known (name : String) : s.names.contains name = (items.map (·.name)).contains name
  names : s.archive.map (·.name) = (items.map (·.name)).eraseDups
  content (k : Nat) (e : ArchiveEntry) : s.archive[k]? = some e →
    ∃ data, e.content = .bytes data ∧ Belongs during substitutions archive items k e.name data
  substituted : s.substituted.reverse =
    (items.map (·.name)).eraseDups.filter fun name => (substitutions.lookup name).isSome
  duplicates : s.duplicates.reverse = repeats (items.map (·.name))

section

variable {during : Surroundings} {substitutions : List (String × String)} {archive : Archive} {items : List Item}
variable {s s' : AssemblyState} {u : Unit}

theorem merged_start : Merged during substitutions archive [] start where
  known name := by simp [start]
  names := rfl
  content := by simp
  substituted := rfl
  duplicates := rfl

/-- A file whose name is taken is dropped. -/
theorem Merged.drop {item : Item} (h : Merged during substitutions archive items s)
    (hseen : s.names.contains item.name = true) :
    Merged during substitutions archive (items ++ [item]) { s with duplicates := item.name :: s.duplicates } := by
  have hmem : (items.map (·.name)).contains item.name = true := (h.known _).symm.trans hseen
  have hnames : ((items ++ [item]).map (·.name)).eraseDups = (items.map (·.name)).eraseDups := by
    rw [List.map_append, List.map_singleton, eraseDups_concat, if_pos hmem, List.append_nil]
  refine ⟨fun name => ?_, ?_, fun k e he => ?_, ?_, ?_⟩
  · show s.names.contains name = _
    rw [h.known, List.map_append, List.map_singleton, Bool.eq_iff_iff, List.contains_iff_mem, List.contains_iff_mem,
      List.mem_append, List.mem_singleton]
    constructor
    · exact .inl
    · rintro (hname | rfl)
      · exact hname
      · exact List.contains_iff_mem.1 hmem
  · rw [hnames]
    exact h.names
  · obtain ⟨data, hdata, hbelongs⟩ := h.content k e he
    exact ⟨data, hdata, hbelongs.append _⟩
  · rw [hnames]
    exact h.substituted
  · rw [List.map_append, List.map_singleton, repeats_concat, if_pos hmem, ← h.duplicates]
    exact List.reverse_cons

/-- A file whose name is free becomes an entry. -/
theorem Merged.push {item : Item} {data : List UInt8} (h : Merged during substitutions archive items s)
    (hfree : ¬ s.names.contains item.name = true)
    (hbelongs : Belongs during substitutions archive (items ++ [item]) s.archive.length item.name data) :
    Merged during substitutions archive (items ++ [item]) (s.store substitutions item.name data) := by
  rw [h.known] at hfree
  have hnames : ((items ++ [item]).map (·.name)).eraseDups = (items.map (·.name)).eraseDups ++ [item.name] := by
    rw [List.map_append, List.map_singleton, eraseDups_concat, if_neg hfree]
  refine ⟨fun name => ?_, ?_, fun k e he => ?_, ?_, ?_⟩
  · show (s.names.insert item.name).contains name = _
    rw [Std.HashSet.contains_insert, h.known, List.map_append, List.map_singleton, Bool.eq_iff_iff, Bool.or_eq_true,
      List.contains_iff_mem, List.contains_iff_mem, List.mem_append, List.mem_singleton, beq_iff_eq]
    constructor
    · rintro (rfl | hname)
      · exact .inr rfl
      · exact .inl hname
    · rintro (hname | rfl)
      · exact .inr hname
      · exact .inl rfl
  · rw [hnames, ← h.names, archive_store, List.map_append, List.map_singleton]
  · rw [archive_store, List.getElem?_append] at he
    split at he
    · obtain ⟨data', hdata', hbefore⟩ := h.content k e he
      exact ⟨data', hdata', hbefore.append _⟩
    · next hk =>
      rw [List.getElem?_singleton] at he
      split at he
      · next hlast =>
        obtain rfl : k = s.archive.length := by omega
        cases he
        exact ⟨data, rfl, hbelongs⟩
      · cases he
  · show (((substitutions.lookup item.name).map fun _ => item.name).toList ++ s.substituted).reverse = _
    rw [hnames, List.filter_append, ← h.substituted, List.reverse_append]
    cases hlookup : substitutions.lookup item.name <;> simp [hlookup]
  · rw [List.map_append, List.map_singleton, repeats_concat, if_neg hfree, List.append_nil]
    exact h.duplicates

/-! ## One file -/

/-- What is done with one file. -/
theorem accept_eq (name : String) (original : Archive → Except AccessError (List UInt8)) (s : AssemblyState) :
    accept during substitutions name original s =
      if s.names.contains name then .ok () { s with duplicates := name :: s.duplicates }
      else
        match toStore during substitutions name original s.archive with
        | .ok data => .ok () (s.store substitutions name data)
        | .error error => .error error s := by
  have hget (rest : AssemblyState → EStateM AccessError AssemblyState Unit) : (get >>= rest) s = rest s s := rfl
  unfold accept toStore
  rw [hget]
  split
  · rfl
  · cases hlookup : substitutions.lookup name with
    | some copy =>
      cases hread : (during s.archive s.archive).readFile copy <;> simp only [store, hlookup, hread] <;> rfl
    | none => cases original s.archive <;> simp only [store, hlookup] <;> rfl

/-- Entries are only added. -/
theorem prefix_of_accept {name : String} {original : Archive → Except AccessError (List UInt8)}
    (h : accept during substitutions name original s = .ok u s') : s.archive <+: s'.archive := by
  rw [accept_eq] at h
  split at h
  · cases h
    exact List.prefix_rfl
  · split at h
    · cases h
      rw [archive_store]
      exact List.prefix_append _ _
    · cases h

theorem merged_accept (item : Item) {original : Archive → Except AccessError (List UInt8)}
    (h : Merged during substitutions archive items s) (hpart : s.archive <+: archive)
    (horiginal : ∀ data, original s.archive = .ok data → item.source.Reads during archive s.archive.length data)
    (haccept : accept during substitutions item.name original s = .ok u s') :
    Merged during substitutions archive (items ++ [item]) s' := by
  rw [accept_eq] at haccept
  split at haccept
  · next hseen =>
    cases haccept
    exact h.drop hseen
  · next hfree =>
    split at haccept
    · next data hstore =>
      cases haccept
      refine h.push hfree ?_
      have hnow := List.prefix_iff_eq_take.1 hpart
      have hfirst : (items ++ [item]).find? (·.name == item.name) = some item := by
        have hnone : items.find? (·.name == item.name) = none := by
          rw [List.find?_eq_none]
          intro other hother heq
          rw [h.known] at hfree
          exact hfree (List.contains_iff_mem.2 (List.mem_map.2 ⟨other, hother, beq_iff_eq.1 heq⟩))
        rw [List.find?_append, hnone, Option.none_or, List.find?_singleton, if_pos (beq_iff_eq.2 rfl)]
      unfold toStore at hstore
      unfold Belongs
      split at hstore
      · rw [hnow] at hstore
        exact FileSystem.readFile_eq_ok_iff.1 hstore
      · exact ⟨item, hfirst, horiginal data hstore⟩
    · cases haccept

/-! ## Many files -/

/-- Steps that add entries, one after the other. -/
theorem prefix_of_forM {α : Type} {f : α → Assembling Unit} {xs : List α}
    (hstep : ∀ x ∈ xs, ∀ s s', f x s = .ok () s' → s.archive <+: s'.archive) (h : xs.forM f s = .ok u s') :
    s.archive <+: s'.archive := by
  induction xs generalizing s with
  | nil =>
    obtain ⟨-, rfl⟩ := EStateM.pure_eq_ok_iff.1 h
    exact List.prefix_rfl
  | cons x xs ih =>
    rw [List.forall_mem_cons] at hstep
    obtain ⟨_, s₁, hfirst, hrest⟩ := EStateM.bind_eq_ok_iff.1 h
    exact (hstep.1 s s₁ hfirst).trans (ih hstep.2 hrest)

/-- Steps each of which takes a file or none. -/
theorem merged_forM {α : Type} {f : α → Assembling Unit} {own : α → Option Item} {xs : List α}
    (hadds : ∀ x ∈ xs, ∀ s s', f x s = .ok () s' → s.archive <+: s'.archive)
    (hstep : ∀ x ∈ xs, ∀ items s s', Merged during substitutions archive items s → s.archive <+: archive →
      f x s = .ok () s' → Merged during substitutions archive (items ++ (own x).toList) s')
    (h : Merged during substitutions archive items s) (hpart : s'.archive <+: archive)
    (hrun : xs.forM f s = .ok u s') :
    Merged during substitutions archive (items ++ xs.filterMap own) s' := by
  induction xs generalizing items s with
  | nil =>
    obtain ⟨-, rfl⟩ := EStateM.pure_eq_ok_iff.1 hrun
    rw [List.filterMap_nil, List.append_nil]
    exact h
  | cons x xs ih =>
    rw [List.forall_mem_cons] at hadds hstep
    obtain ⟨_, s₁, hfirst, hrest⟩ := EStateM.bind_eq_ok_iff.1 hrun
    have hpart₁ := (prefix_of_forM hadds.2 hrest).trans hpart
    have hmerged := hstep.1 items s s₁ h ((hadds.1 s s₁ hfirst).trans hpart₁) hfirst
    have hall := ih hadds.2 hstep.2 hmerged hrest
    rw [List.append_assoc] at hall
    cases hown : own x with
    | none =>
      rw [hown] at hall
      rwa [List.filterMap_cons_none hown]
    | some item =>
      rw [hown] at hall
      rwa [List.filterMap_cons_some hown]

/-! ## Directories -/

theorem acceptFiles_eq_ok {path : String} (h : acceptFiles during substitutions path s = .ok u s') :
    (¬ (during s.archive s.archive).isDirectory path = true ∧ s' = s) ∨
      ∃ names, (during s.archive s.archive).filesBelow false path = .ok names ∧
        (names.forM fun name => accept during substitutions name fun now =>
          (during now now).readFile (Path.join path name)) s = .ok u s' := by
  have hget (rest : AssemblyState → EStateM AccessError AssemblyState Unit) : (get >>= rest) s = rest s s := rfl
  unfold acceptFiles at h
  rw [hget] at h
  split at h
  · cases hnames : (during s.archive s.archive).filesBelow false path with
    | error error =>
      rw [hnames] at h
      cases h
    | ok names =>
      rw [hnames] at h
      exact .inr ⟨names, rfl, h⟩
  · next hnot =>
    cases h
    exact .inl ⟨hnot, rfl⟩

theorem prefix_of_acceptFiles {path : String} (h : acceptFiles during substitutions path s = .ok u s') :
    s.archive <+: s'.archive := by
  rcases acceptFiles_eq_ok h with ⟨-, rfl⟩ | ⟨names, -, hrun⟩
  · exact List.prefix_rfl
  · exact prefix_of_forM (fun _ _ _ _ => prefix_of_accept) hrun

theorem merged_acceptFiles (hsound : ∀ opened now, (during opened now).root.Sound) {path : String}
    (h : Merged during substitutions archive items s) (hpart : s'.archive <+: archive)
    (hrun : acceptFiles during substitutions path s = .ok u s') :
    ∃ own, (Root.directory path).Items during archive s.archive.length own ∧
      Merged during substitutions archive (items ++ own) s' := by
  have hnow := List.prefix_iff_eq_take.1 ((prefix_of_acceptFiles hrun).trans hpart)
  rcases acceptFiles_eq_ok hrun with ⟨hnot, rfl⟩ | ⟨names, hnames, hall⟩
  · rw [hnow] at hnot
    refine ⟨[], ⟨[], FileSystem.listing_nil_of_not_isDirectory hnot,
      FileSystem.unblocked_of_not_isDirectory hnot, rfl⟩, ?_⟩
    rw [List.append_nil]
    exact h
  · have hlisting := FileSystem.listing_of_filesBelow (hsound _ _) hnames
    have hunblocked := FileSystem.unblocked_of_filesBelow hnames
    rw [hnow] at hlisting hunblocked
    refine ⟨_, ⟨names, hlisting, hunblocked, rfl⟩, ?_⟩
    rw [← List.filterMap_eq_map]
    refine merged_forM (fun _ _ _ _ => prefix_of_accept) (fun name _ items s s' hmerged hpart haccept => ?_) h hpart hall
    refine merged_accept ⟨name, .file (Path.join path name)⟩ hmerged hpart (fun data hread => ?_) haccept
    have hnow := List.prefix_iff_eq_take.1 hpart
    rw [hnow] at hread
    exact FileSystem.readFile_eq_ok_iff.1 hread

/-! ## Archives -/

theorem contentNow_eq_bytes {path : String} {opened now : Archive} {index : Nat} {data : List UInt8}
    (h : contentNow during path opened index now = .bytes data) : ∃ entries e,
      (during opened now).Stores path entries ∧ entries[index]? = some e ∧ e.content = .bytes data := by
  unfold contentNow at h
  split at h
  · next entries hopen =>
    cases hentry : entries[index]? with
    | none =>
      rw [hentry] at h
      cases h
    | some e =>
      rw [hentry] at h
      exact ⟨entries, e, FileSystem.openArchive_eq_ok_iff.1 hopen, hentry, h⟩
  · cases h

/-- What is done with an entry that is not refused. -/
theorem acceptEntry_eq {path name : String} {opened : Archive} {index : Nat}
    (h : (contentNow during path opened index s.archive).refusal? = none) :
    acceptEntry during substitutions path opened name index s =
      if Archive.NamesDirectory name then .ok () s
      else accept during substitutions name (fun _ => (contentNow during path opened index s.archive).read.mapError
        (.readEntry path name)) s := by
  have hget (rest : AssemblyState → EStateM AccessError AssemblyState Unit) : (get >>= rest) s = rest s s := rfl
  unfold acceptEntry
  rw [hget, h, Archive.isDirectoryName_eq]
  by_cases hname : Archive.NamesDirectory name
  · rw [if_pos hname, if_neg (by simp [hname])]
    rfl
  · rw [if_neg hname, if_pos (by simp [hname])]

theorem acceptEntry_eq_ok {path name : String} {opened : Archive} {index : Nat}
    (h : acceptEntry during substitutions path opened name index s = .ok u s') :
    (Archive.NamesDirectory name ∧ s' = s) ∨ (¬ Archive.NamesDirectory name ∧
      accept during substitutions name (fun _ => (contentNow during path opened index s.archive).read.mapError
        (.readEntry path name)) s = .ok u s') := by
  have hget (rest : AssemblyState → EStateM AccessError AssemblyState Unit) : (get >>= rest) s = rest s s := rfl
  cases hrefusal : (contentNow during path opened index s.archive).refusal? with
  | some cause =>
    unfold acceptEntry at h
    rw [hget, hrefusal] at h
    cases h
  | none =>
    rw [acceptEntry_eq hrefusal] at h
    split at h
    · next hname =>
      cases h
      exact .inl ⟨hname, rfl⟩
    · next hname => exact .inr ⟨hname, h⟩

theorem prefix_of_acceptEntry {path name : String} {opened : Archive} {index : Nat}
    (h : acceptEntry during substitutions path opened name index s = .ok u s') : s.archive <+: s'.archive := by
  rcases acceptEntry_eq_ok h with ⟨-, rfl⟩ | ⟨-, haccept⟩
  · exact List.prefix_rfl
  · exact prefix_of_accept haccept

theorem acceptEntries_eq_ok {path : String} (h : acceptEntries during substitutions path s = .ok u s') :
    ∃ entries, (during s.archive s.archive).Stores path entries ∧
      (entries.zipIdx.forM fun x => acceptEntry during substitutions path s.archive x.1.name x.2) s = .ok u s' := by
  have hget (rest : AssemblyState → EStateM AccessError AssemblyState Unit) : (get >>= rest) s = rest s s := rfl
  unfold acceptEntries at h
  rw [hget] at h
  cases hopen : (during s.archive s.archive).openArchive path with
  | error error =>
    rw [hopen] at h
    cases h
  | ok entries =>
    rw [hopen] at h
    exact ⟨entries, FileSystem.openArchive_eq_ok_iff.1 hopen, h⟩

theorem prefix_of_acceptEntries {path : String} (h : acceptEntries during substitutions path s = .ok u s') :
    s.archive <+: s'.archive := by
  obtain ⟨entries, -, hrun⟩ := acceptEntries_eq_ok h
  exact prefix_of_forM (fun _ _ _ _ => prefix_of_acceptEntry) hrun

theorem merged_acceptEntries {path : String} (h : Merged during substitutions archive items s)
    (hpart : s'.archive <+: archive) (hrun : acceptEntries during substitutions path s = .ok u s') :
    ∃ own, (Root.archive path).Items during archive s.archive.length own ∧
      Merged during substitutions archive (items ++ own) s' := by
  have hopened := List.prefix_iff_eq_take.1 ((prefix_of_acceptEntries hrun).trans hpart)
  obtain ⟨entries, hstores, hall⟩ := acceptEntries_eq_ok hrun
  rw [hopened] at hstores
  refine ⟨_, ⟨entries, hstores, rfl⟩, ?_⟩
  rw [← List.filterMap_eq_map, List.filterMap_filter]
  refine merged_forM (fun _ _ _ _ => prefix_of_acceptEntry) (fun x _ items s₁ s₂ hmerged hpart haccept => ?_) h hpart hall
  rcases acceptEntry_eq_ok haccept with ⟨hname, rfl⟩ | ⟨hname, haccept⟩
  · simpa [hname] using hmerged
  · have hfile := merged_accept ⟨x.1.name, .entry path x.2 s.archive.length⟩ hmerged hpart
      (fun data hread => ?_) haccept
    · simpa [hname] using hfile
    · have hnow := List.prefix_iff_eq_take.1 hpart
      have hread := contentNow_eq_bytes (EntryContent.read_eq_ok_iff.1 (Except.mapError_eq_ok_iff.1 hread))
      rw [hopened, hnow] at hread
      exact hread

/-! ## All roots -/

theorem prefix_of_acceptRoot {root : Root} (h : acceptRoot during substitutions root s = .ok u s') :
    s.archive <+: s'.archive := by
  cases root with
  | directory path => exact prefix_of_acceptFiles h
  | archive path => exact prefix_of_acceptEntries h

theorem merged_acceptRoot (hsound : ∀ opened now, (during opened now).root.Sound) {root : Root}
    (h : Merged during substitutions archive items s) (hpart : s'.archive <+: archive)
    (hrun : acceptRoot during substitutions root s = .ok u s') :
    ∃ own, root.Items during archive s.archive.length own ∧ Merged during substitutions archive (items ++ own) s' := by
  cases root with
  | directory path => exact merged_acceptFiles hsound h hpart hrun
  | archive path => exact merged_acceptEntries h hpart hrun

theorem merged_acceptRoots (hsound : ∀ opened now, (during opened now).root.Sound) {roots : List Root}
    (h : Merged during substitutions archive items s) (hpart : s'.archive <+: archive)
    (hrun : roots.forM (acceptRoot during substitutions) s = .ok u s') :
    ∃ more, Collects during archive items roots more ∧ Merged during substitutions archive (items ++ more) s' := by
  induction roots generalizing items s with
  | nil =>
    obtain ⟨-, rfl⟩ := EStateM.pure_eq_ok_iff.1 hrun
    refine ⟨[], .nil, ?_⟩
    rw [List.append_nil]
    exact h
  | cons root roots ih =>
    obtain ⟨_, s₁, hfirst, hrest⟩ := EStateM.bind_eq_ok_iff.1 hrun
    have hpart₁ := (prefix_of_forM (fun _ _ _ _ => prefix_of_acceptRoot) hrest).trans hpart
    obtain ⟨own, hown, hmerged⟩ := merged_acceptRoot hsound h hpart₁ hfirst
    obtain ⟨others, hothers, hall⟩ := ih hmerged hrest
    have hcount : s.archive.length = (items.map (·.name)).eraseDups.length := by
      rw [← h.names, List.length_map]
    refine ⟨own ++ others, .cons (hcount ▸ hown) hothers, ?_⟩
    rwa [← List.append_assoc]

theorem Merged.merges (h : Merged during substitutions s.archive items s) (output : String) :
    Merges during substitutions items s.archive (s.report output) := by
  have hcount : (s.report output).entryCount = (items.map (·.name)).eraseDups.length := by
    rw [← h.names, List.length_map]
    exact List.length_reverse.symm
  refine ⟨h.names, ?_, h.content, hcount, h.duplicates, ?_, h.substituted⟩
  · rw [h.names]
    exact nodup_eraseDups _
  · rw [hcount, show (s.report output).duplicates = repeats (items.map (·.name)) from h.duplicates,
      length_eraseDups_add_repeats, List.length_map]

/-! ## When nothing fails -/

theorem exists_accept {name : String} {original : Archive → Except AccessError (List UInt8)}
    (h : ∃ data, toStore during substitutions name original s.archive = .ok data) :
    ∃ s', accept during substitutions name original s = .ok () s' := by
  obtain ⟨data, hstore⟩ := h
  rw [accept_eq, hstore]
  split <;> exact ⟨_, rfl⟩

theorem exists_forM {α : Type} {f : α → Assembling Unit} {xs : List α}
    (h : ∀ x ∈ xs, ∀ s, ∃ s', f x s = .ok () s') (s : AssemblyState) : ∃ s', xs.forM f s = .ok () s' := by
  induction xs generalizing s with
  | nil => exact ⟨s, rfl⟩
  | cons x xs ih =>
    rw [List.forall_mem_cons] at h
    obtain ⟨s₁, hfirst⟩ := h.1 s
    obtain ⟨s', hrest⟩ := ih h.2 s₁
    exact ⟨s', EStateM.bind_eq_ok_iff.2 ⟨(), s₁, hfirst, hrest⟩⟩

end

end AssemblyState

/-- A path leads to one archive. -/
theorem eq_of_find_ofArchive {fs : FileSystem} {path : String} {place place' : List String} {access access' : Access}
    {archive archive' : Archive} (h : fs.find path = .ok (place, .file access (.ofArchive archive)))
    (h' : fs.find path = .ok (place', .file access' (.ofArchive archive'))) : archive = archive' := by
  rw [h, Except.ok.injEq, Prod.mk.injEq, FileTree.file.injEq, File.ofArchive, File.ofArchive, File.mk.injEq] at h'
  exact Option.some.inj h'.2.2.2

/-- Whether a file can be read. -/
def FileSystem.isReadable (fs : FileSystem) (path : String) : Bool := (fs.readFile path).toOption.isSome

/-- Whether all that a root holds can be taken into an archive whose file has a place. -/
def Root.isReady (fs : FileSystem) (place : List String) (substitutions : List (String × String)) : Root → Bool
  | .directory path => !fs.isDirectory path || match fs.filesBelow false path with
    | .ok names => names.all fun name => fs.isReadable ((substitutions.lookup name).getD (Path.join path name))
    | .error _ => false
  | .archive path => decide (fs.destination path ≠ place) && match fs.openArchive path with
    | .ok entries => entries.all fun e =>
      e.content.read.toOption.isSome && ((substitutions.lookup e.name).map fs.isReadable).getD true
    | .error _ => false

section

variable {during : Surroundings} {substitutions : List (String × String)} {fs : FileSystem} {place : List String}

theorem Surroundings.Around.exists_readFile (h : during.Around fs place) (opened now : Archive) {path : String}
    (hread : fs.isReadable path = true) : ∃ data, (during opened now).readFile path = .ok data := by
  obtain ⟨data, hdata⟩ := Option.isSome_iff_exists.1 hread
  have hyields := FileSystem.readFile_eq_ok_iff.1 (Except.toOption_eq_some_iff.1 hdata)
  obtain ⟨data', hdata', -⟩ := (h.grows opened now).yields hyields
  exact ⟨data', FileSystem.readFile_eq_ok_iff.2 hdata'⟩

theorem AssemblyState.exists_acceptFiles (haround : during.Around fs place) {path : String}
    (hready : (Root.directory path).isReady fs place substitutions = true) (s : AssemblyState) :
    ∃ s', acceptFiles during substitutions path s = .ok () s' := by
  have hget (rest : AssemblyState → EStateM AccessError AssemblyState Unit) : (get >>= rest) s = rest s s := rfl
  unfold acceptFiles
  rw [hget]
  rw [Root.isReady, Bool.or_eq_true, Bool.not_eq_true'] at hready
  cases hdirectory : fs.isDirectory path with
  | false =>
    rw [haround.isDirectory_eq, hdirectory]
    exact ⟨s, rfl⟩
  | true =>
    rw [haround.isDirectory_eq, hdirectory]
    rcases hready with hnot | hready
    · rw [hdirectory] at hnot
      cases hnot
    · cases hnames : fs.filesBelow false path with
      | error error =>
        rw [hnames] at hready
        cases hready
      | ok names =>
        rw [hnames] at hready
        rw [haround.filesBelow _ _ hnames]
        refine exists_forM (fun name hname s => exists_accept ?_) s
        have hread := List.all_eq_true.1 hready name hname
        unfold toStore
        cases hlookup : substitutions.lookup name <;> rw [hlookup] at hread <;> exact haround.exists_readFile _ _ hread

theorem AssemblyState.exists_acceptEntries (haround : during.Around fs place) {path : String}
    (hready : (Root.archive path).isReady fs place substitutions = true) (s : AssemblyState) :
    ∃ s', acceptEntries during substitutions path s = .ok () s' := by
  have hget (s : AssemblyState) (rest : AssemblyState → EStateM AccessError AssemblyState Unit) :
      (get >>= rest) s = rest s s := rfl
  rw [Root.isReady, Bool.and_eq_true, decide_eq_true_iff] at hready
  obtain ⟨hclear, hready⟩ := hready
  cases hopen : fs.openArchive path with
  | error error =>
    rw [hopen] at hready
    cases hready
  | ok entries =>
    rw [hopen] at hready
    have hmeanwhile (opened now : Archive) : (during opened now).openArchive path = .ok entries :=
      FileSystem.openArchive_eq_ok_iff.2
        ((haround.stores_iff opened now hclear).2 (FileSystem.openArchive_eq_ok_iff.1 hopen))
    unfold acceptEntries
    rw [hget, hmeanwhile]
    refine exists_forM (fun x hx s₁ => ?_) s
    have hentry : entries[x.2]? = some x.1 := List.mem_zipIdx_iff_getElem?.1 hx
    obtain ⟨hread, hcopy⟩ := Bool.and_eq_true_iff.1 (List.all_eq_true.1 hready x.1 (List.mem_of_getElem? hentry))
    obtain ⟨data, hdata⟩ := Option.isSome_iff_exists.1 hread
    have hcontent : contentNow during path s.archive x.2 s₁.archive = .bytes data := by
      rw [contentNow, hmeanwhile]
      dsimp only
      rw [hentry]
      exact EntryContent.read_eq_ok_iff.1 (Except.toOption_eq_some_iff.1 hdata)
    rw [acceptEntry_eq (by rw [hcontent]; rfl), hcontent]
    split
    · exact ⟨s₁, rfl⟩
    · refine exists_accept ?_
      unfold toStore
      cases hlookup : substitutions.lookup x.1.name with
      | none => exact ⟨data, rfl⟩
      | some copy =>
        rw [hlookup] at hcopy
        exact haround.exists_readFile _ _ hcopy

end

/-! ## Assembled archives -/

section

variable {unfinished : Unfinished} {inputs : Inputs} {substitutions : List (String × String)} {output : String}
variable {report : AssemblyReport} {fs fs' : FileSystem}

/-- What happens when an archive is assembled. -/
theorem assemble_eq_ok (h : assemble unfinished inputs substitutions output fs = .ok report fs') :
    ∃ fs₁ s, beginArchive output fs = .ok () fs₁ ∧
      inputs.roots.forM (AssemblyState.acceptRoot (fs₁.during output unfinished) substitutions) .start = .ok () s ∧
      report = s.report output ∧ FileSystem.write output (.ofArchive s.archive) fs₁ = .ok () fs' := by
  unfold assemble at h
  obtain ⟨_, fs₁, hbegin, h⟩ := EStateM.bind_eq_ok_iff.1 h
  obtain ⟨_, _, hget, h⟩ := EStateM.bind_eq_ok_iff.1 h
  cases hget
  cases haccept : inputs.roots.forM (AssemblyState.acceptRoot (fs₁.during output unfinished) substitutions) .start with
  | error cause s =>
    rw [haccept] at h
    obtain ⟨_, _, -, h⟩ := EStateM.bind_eq_ok_iff.1 h
    cases h
  | ok u s =>
    rw [haccept] at h
    obtain ⟨_, _, hwrite, h⟩ := EStateM.bind_eq_ok_iff.1 h
    obtain ⟨rfl, rfl⟩ := EStateM.pure_eq_ok_iff.1 h
    exact ⟨fs₁, s, hbegin, haccept, rfl, FileSystem.createFile_eq_ok hwrite⟩

/-- An archive is assembled if it can be begun and all that the roots hold can be taken. -/
theorem exists_assemble (unfinished : Unfinished) {fs₁ : FileSystem} (hsound : fs.root.Sound)
    (hbegin : beginArchive output fs = .ok () fs₁)
    (hready : ∀ root ∈ inputs.roots, root.isReady fs₁ (fs₁.destination output) substitutions = true) :
    ∃ report fs', assemble unfinished inputs substitutions output fs = .ok report fs' := by
  have haround := around_during hsound hbegin unfinished
  obtain ⟨s, hrun⟩ : ∃ s, inputs.roots.forM
      (AssemblyState.acceptRoot (fs₁.during output unfinished) substitutions) .start = .ok () s := by
    refine AssemblyState.exists_forM (fun root hroot s => ?_) .start
    have hroot := hready root hroot
    cases root with
    | directory path => exact AssemblyState.exists_acceptFiles haround hroot s
    | archive path => exact AssemblyState.exists_acceptEntries haround hroot s
  obtain ⟨fs₀, hempty⟩ := write_of_beginArchive hbegin
  obtain ⟨fs', hwrite⟩ := FileSystem.exists_write_of_write hempty (.ofArchive s.archive)
  have hcreate : FileSystem.createFile output (.ofArchive s.archive) fs₁ = .ok () fs' := by
    rw [FileSystem.createFile, EStateM.adaptExcept, hwrite]
  refine ⟨s.report output, fs', EStateM.bind_eq_ok_iff.2 ⟨(), fs₁, hbegin, ?_⟩⟩
  refine EStateM.bind_eq_ok_iff.2 ⟨fs₁, fs₁, rfl, ?_⟩
  rw [hrun]
  exact EStateM.bind_eq_ok_iff.2 ⟨(), fs', hcreate, rfl⟩

/-- An assembled archive has merged what the roots hold. -/
theorem merged_of_assemble (hsound : fs.root.Sound)
    (h : assemble unfinished inputs substitutions output fs = .ok report fs') :
    ∃ fs₁ items s, beginArchive output fs = .ok () fs₁ ∧
      Collects (fs₁.during output unfinished) s.archive [] inputs.roots items ∧
      AssemblyState.Merged (fs₁.during output unfinished) substitutions s.archive items s ∧ report = s.report output ∧
      FileSystem.write output (.ofArchive s.archive) fs₁ = .ok () fs' := by
  obtain ⟨fs₁, s, hbegin, hrun, hreport, hwrite⟩ := assemble_eq_ok h
  have haround := around_during hsound hbegin unfinished
  have hsounds (opened now : Archive) := (haround.grows opened now).sound haround.sound
  have hstart : AssemblyState.Merged (fs₁.during output unfinished) substitutions s.archive [] .start :=
    AssemblyState.merged_start
  obtain ⟨items, hitems, hmerged⟩ := AssemblyState.merged_acceptRoots hsounds hstart List.prefix_rfl hrun
  exact ⟨fs₁, items, s, hbegin, hitems, hmerged, hreport, hwrite⟩

/-- What is assembled if all that the roots hold can be taken. -/
theorem exists_merges (unfinished : Unfinished) {fs₁ : FileSystem} {items : List Item} (hsound : fs.root.Sound)
    (hbegin : beginArchive output fs = .ok () fs₁)
    (hready : ∀ root ∈ inputs.roots, root.isReady fs₁ (fs₁.destination output) substitutions = true)
    (hcollect : collectAll fs₁ [] inputs.roots = .ok items) :
    ∃ report fs' archive place access, assemble unfinished inputs substitutions output fs = .ok report fs' ∧
      fs'.find output = .ok (place, .file access (.ofArchive archive)) ∧
      Merges (fs₁.during output unfinished) substitutions items archive report := by
  obtain ⟨report, fs', h⟩ := exists_assemble unfinished hsound hbegin hready
  obtain ⟨fs₂, items', s, hbegin', hitems, hmerged, rfl, hwrite⟩ := merged_of_assemble hsound h
  rw [hbegin] at hbegin'
  cases hbegin'
  have haround := around_during hsound hbegin unfinished
  have hclear : ∀ path, .archive path ∈ inputs.roots → fs₁.destination path ≠ fs₁.destination output := by
    intro path hpath
    have harchive := hready _ hpath
    rw [Root.isReady, Bool.and_eq_true] at harchive
    exact of_decide_eq_true harchive.1
  obtain rfl := (hitems.still haround hclear).unique (collects_of_collectAll haround.sound s.archive hcollect)
  obtain ⟨access, hfind⟩ := FileSystem.find_of_write hwrite
  exact ⟨_, fs', s.archive, _, access, h, hfind, hmerged.merges output⟩

/-- **First-wins merge.** When an archive was assembled, its file holds one entry for each name that the roots hold, in
the order in which the names come first. An entry has the content of the copy that takes its place, or else of the first
file with its name. The report counts the entries, lists every later file with a name that is taken, and lists the
entries that were taken from copies. Everything is what shows while the archive has the entries so far: only its own
file changes meanwhile. -/
theorem merges_of_assemble (hsound : fs.root.Sound)
    (h : assemble unfinished inputs substitutions output fs = .ok report fs') :
    ∃ fs₁ items archive, beginArchive output fs = .ok () fs₁ ∧
      Collects (fs₁.during output unfinished) archive [] inputs.roots items ∧
      Merges (fs₁.during output unfinished) substitutions items archive report ∧
      ∃ place access, fs'.find output = .ok (place, .file access (.ofArchive archive)) := by
  obtain ⟨fs₁, items, s, hbegin, hitems, hmerged, rfl, hwrite⟩ := merged_of_assemble hsound h
  obtain ⟨access, hfind⟩ := FileSystem.find_of_write hwrite
  exact ⟨fs₁, items, s.archive, hbegin, hitems, hmerged.merges output, _, access, hfind⟩

/-- A directory and an archive that have `A.class` in common. The archive has `B.class` twice, and there is a copy of
it. -/
def overlapping : FileSystem where
  root := .directory .full [("copy", .file .full (.ofBytes [9])),
    ("in", .directory .full [("A.class", .file .full (.ofBytes [1]))]),
    ("in.jar", .file .full (.ofArchive [⟨"A.class", .bytes [2]⟩, ⟨"B.class", .bytes [3]⟩, ⟨"B.class", .bytes [4]⟩]))]
  workingDirectory := []

/-- The directory and the archive. -/
def overlappingRoots : Inputs := ⟨["in"], ["in.jar"]⟩

theorem sound_overlapping : overlapping.root.Sound := by
  simp only [overlapping, FileTree.sound_directory_iff, FileTree.sound_file, List.forall_mem_cons]
  simp
  decide

theorem merges_of_assemble_overlapping :
    ∃ report fs' archive, assemble .stored overlappingRoots [("B.class", "copy")] "out.jar" overlapping =
        .ok report fs' ∧
      (∃ place access, fs'.find "out.jar" = .ok (place, .file access (.ofArchive archive))) ∧
      archive.map (·.name) = ["A.class", "B.class"] ∧ report.duplicates = ["A.class", "B.class"] ∧
      report.substituted = ["B.class"] := by
  have hbegin : beginArchive "out.jar" overlapping = .ok () (FileSystem.after (beginArchive "out.jar" overlapping)) :=
    FileSystem.eq_ok_of_succeeds (by decide +kernel)
  have hall : (∀ root ∈ overlappingRoots.roots, root.isReady (FileSystem.after (beginArchive "out.jar" overlapping))
        ((FileSystem.after (beginArchive "out.jar" overlapping)).destination "out.jar") [("B.class", "copy")] = true) ∧
      (collectAll (FileSystem.after (beginArchive "out.jar" overlapping)) [] overlappingRoots.roots).map
        (·.map (·.name)) = .ok ["A.class", "A.class", "B.class", "B.class"] ∧
      (FileSystem.after (beginArchive "out.jar" overlapping)).destination "in.jar" ≠
        (FileSystem.after (beginArchive "out.jar" overlapping)).destination "out.jar" := by
    decide +kernel
  generalize FileSystem.after (beginArchive "out.jar" overlapping) = fs₁ at hbegin hall
  obtain ⟨hready, hcollect, hclear⟩ := hall
  obtain ⟨report, fs', h⟩ := exists_assemble .stored sound_overlapping hbegin hready
  obtain ⟨fs₂, items, archive, hbegin', hitems, hmerges, hfile⟩ := merges_of_assemble sound_overlapping h
  rw [hbegin] at hbegin'
  cases hbegin'
  have haround := around_during sound_overlapping hbegin .stored
  obtain ⟨items', hcollected, hnames⟩ := Except.map_eq_ok_iff.1 hcollect
  have hstill := hitems.still haround fun path hpath => by
    obtain rfl : path = "in.jar" := by simpa [overlappingRoots, Inputs.roots] using hpath
    exact hclear
  obtain rfl := hstill.unique (collects_of_collectAll haround.sound archive hcollected)
  refine ⟨report, fs', archive, h, hfile, ?_, ?_, ?_⟩
  · rw [hmerges.names, hnames]
    rfl
  · rw [hmerges.duplicates, hnames]
    rfl
  · rw [hmerges.substituted, hnames]
    rfl

end

end Registrar
