import Registrar.Proofs.Entries
import Registrar.Proofs.Merging

/-!
# Which copy of a class counts

Several roots may hold a class. A scan, a search and an assembly each go through the roots in their own way: a scan takes
what it can list, a search asks each root for the class, and an assembly stops when something cannot be listed.

* `FileSystem.lists_or_blocked` : a directory lists a file that is found below it, or something on the way cannot be
  listed;
* `Root.Shows` : a root has nothing that keeps a class it holds from being listed;
* `Scan.LooksAt` : a scan reads a class of a root. `locate?_of_looksAt` : then the root is found for the class, if no
  earlier root holds the class unseen;
* `Collects.exists_root_upTo` : where the first file with a name comes from. `Root.hasEntry_of_find?` : what is
  read of it is what the root has;
* `agree_of_looksAt` : all three take the same copy. `not_forall_agree_of_looksAt` : not if an archive has an entry that
  cannot be opened, or if the archive that is assembled stands in the place of the class.
-/

namespace Registrar

/-! ## Below directories -/

/-- The entry of a class with a proper name is a way down. -/
theorem IsProperName.isDirect {className : String} (h : IsProperName className) :
    Path.IsDirect (classEntryName className) := by
  obtain ⟨front, last, -, hpieces, hsteps, -⟩ := h.exists_steps
  intro piece hpiece
  have hstep : piece ∈ Path.steps (classEntryName className) := by rwa [hsteps, ← hpieces]
  refine Path.isName_of_mem_steps hstep ?_
  rintro rfl
  exact h.isPlain hstep

/-- The front of a path is no longer than the path. -/
theorem Path.utf8ByteSize_ofPieces_le {front pieces : List String} (h : front <+: pieces) :
    (ofPieces front).utf8ByteSize ≤ (ofPieces pieces).utf8ByteSize := by
  induction front generalizing pieces with
  | nil => exact Nat.zero_le _
  | cons piece front ih =>
    obtain ⟨behind, rfl⟩ := h
    rw [List.cons_append]
    by_cases hfront : front = []
    · subst hfront
      rw [ofPieces_singleton, List.nil_append]
      by_cases hbehind : behind = []
      · rw [hbehind, ofPieces_singleton]
      · rw [utf8ByteSize_ofPieces_cons piece hbehind]
        omega
    · rw [utf8ByteSize_ofPieces_cons piece hfront, utf8ByteSize_ofPieces_cons piece (by simp [hfront])]
      have hrest := ih (List.prefix_append front behind)
      omega

namespace FileSystem

variable {fs : FileSystem} {path entry : String}

theorem check_of_check_join (hentry : Path.isAbsolute entry = false) (hpath : path ≠ "")
    (h : check (Path.join path entry) = .ok ()) : check path = .ok () := by
  have hparts : ∃ rest, Path.join path entry = path ++ rest := by
    rw [Path.join, if_neg (Bool.eq_false_iff.1 hentry)]
    split
    · exact ⟨entry, rfl⟩
    · exact ⟨"/" ++ entry, String.append_assoc⟩
  obtain ⟨rest, hrest⟩ := hparts
  rw [hrest] at h
  unfold check at h ⊢
  split at h
  · cases h
  · next hnul =>
    split at h
    · cases h
    · split at h
      · cases h
      · next hlong =>
        rw [String.toList_append, List.contains_iff_mem, List.mem_append, not_or] at hnul
        rw [String.utf8ByteSize_append] at hlong
        have hempty : ¬ path.isEmpty = true := by simpa using hpath
        rw [if_neg (mt List.contains_iff_mem.1 hnul.1), if_neg hempty, if_neg (by omega)]

theorem lt_maxLength_of_check (h : check path = .ok ()) : path.utf8ByteSize < Path.maxLength := by
  unfold check at h
  split at h
  · cases h
  · split at h
    · cases h
    · split at h
      · cases h
      · omega

/-- What has the path of an entry below a directory stands below that directory. -/
theorem exists_find_of_find_join {found : List String × FileTree} (hpath : path ≠ "") (hentry : Path.IsDirect entry)
    (h : fs.find (Path.join path entry) = .ok found) :
    ∃ base, fs.find path = .ok base ∧ base.2.isDirectory = true := by
  obtain ⟨hcheck, hfollow, -⟩ := find_eq_ok_iff_follow.1 h
  rw [Path.steps_join path hentry.isAbsolute, follow_append_eq_ok_iff, start,
    Path.isAbsolute_join path hentry.isAbsolute] at hfollow
  obtain ⟨base, hbase, hfound⟩ := hfollow
  rw [hentry.steps_eq] at hfound
  obtain ⟨first, others, hpieces⟩ := List.exists_cons_of_ne_nil (Path.IsDirect.pieces_ne_nil entry)
  -- the first step from the directory enters it
  rw [hpieces, follow, (follow_eq_ok hbase).2] at hfound
  dsimp only at hfound
  cases hdirectory : base.2.isDirectory with
  | false =>
    rw [hdirectory] at hfound
    cases hfound
  | true =>
    cases henter : base.2.canEnter with
    | false =>
      rw [hdirectory, henter] at hfound
      cases hfound
    | true =>
      exact ⟨base, find_eq_ok_iff_follow.2 ⟨check_of_check_join hentry.isAbsolute hpath hcheck, hbase,
        fun _ => hdirectory, fun _ => henter⟩, hdirectory⟩

/-- A file that is found below a directory is listed there, or something on the way to it cannot be listed. -/
theorem lists_or_blocked (hsound : fs.root.Sound) (hpath : path ≠ "") (hentry : Path.IsDirect entry)
    (h : fs.isFile (Path.join path entry) = true) : fs.Lists path entry ∨ ∃ base front name,
      fs.find path = .ok base ∧ front ++ [name] <+: Path.pieces entry ∧ base.2.Blocked (Path.room path) front := by
  obtain ⟨place, access, content, hfind⟩ := isFile_eq_true_iff.1 h
  obtain ⟨base, hbase, hdirectory⟩ := exists_find_of_find_join hpath hentry hfind
  obtain ⟨hcheck, -, hpass, hget, -⟩ := (find_join_eq_ok_iff hbase hentry.isAbsolute hentry.isPlain).1 hfind
  rw [hentry.steps_eq] at hpass hget
  have hshort : ∀ front name, front ++ [name] <+: Path.pieces entry →
      Path.room path + (Path.ofPieces (front ++ [name])).utf8ByteSize < Path.maxLength := by
    intro front name hfront
    have hfits := lt_maxLength_of_check hcheck
    have hle := Path.utf8ByteSize_ofPieces_le hfront
    rw [Path.ofPieces_pieces] at hle
    rw [Path.utf8ByteSize_join path hentry.isAbsolute] at hfits
    omega
  rcases FileTree.listed_or_blocked hget rfl hpass hshort with hlisted | ⟨front, name, hfront, hblocked⟩
  · exact .inl ((lists_iff hsound).2 ⟨base, hbase, hdirectory, hlisted⟩)
  · exact .inr ⟨base, front, name, hbase, hfront, hblocked⟩

end FileSystem

theorem not_namesDirectory_of_isClass {entry : String} (h : ".class".toList <:+ entry.toList) :
    ¬ Archive.NamesDirectory entry := by
  have hfile := isDirectoryName_of_isClass h
  rw [Archive.isDirectoryName_eq] at hfile
  exact of_decide_eq_false hfile

theorem suffix_classEntryName (className : String) : ".class".toList <:+ (classEntryName className).toList := by
  rw [classEntryName, String.toList_append]
  exact List.suffix_append _ _

/-! ## What a root holds -/

namespace Root

/-- Nothing keeps an entry that a root holds from being listed. The path of a directory is not empty, the entry is a way
down, and each directory on the way can be listed. No entry of an archive is refused. -/
def Shows (fs : FileSystem) (entry : String) : Root → Prop
  | .directory path => path ≠ "" ∧ Path.IsDirect entry ∧ ∀ front name access, front ++ [name] <+: Path.pieces entry →
    fs.root.nodeAt (fs.destination path ++ front) = some (.directory access []) → access.read = true
  | .archive path => ∀ stored, fs.Stores path stored → ∀ e ∈ stored, ¬ e.IsRefused

/-- A root lists a file. -/
def Lists (fs : FileSystem) (entry : String) : Root → Prop
  | .directory path => fs.Lists path entry
  | .archive path => ∃ stored, fs.Stores path stored ∧ entry ∈ stored.map (·.name) ∧ ¬ Archive.NamesDirectory entry

variable {fs fs' : FileSystem} {root : Root} {entry : String}

/-- A directory that can be listed shows what is in it. -/
theorem shows_of_pieces_eq {path name : String} {access : Access} (hpath : path ≠ "") (hentry : Path.IsDirect entry)
    (hpieces : Path.pieces entry = [name]) (hnode : fs.root.nodeAt (fs.destination path) = some (.directory access []))
    (hread : access.read = true) : (directory path).Shows fs entry := by
  refine ⟨hpath, hentry, fun front last access' hfront hnode' => ?_⟩
  obtain rfl : front = [] := by
    have hlength := hfront.length_le
    rw [hpieces, List.length_append] at hlength
    exact List.eq_nil_of_length_eq_zero (Nat.le_zero.1 (Nat.le_of_succ_le_succ hlength))
  rw [List.append_nil, hnode] at hnode'
  cases hnode'
  exact hread

theorem holds_of_hasEntry {data : List UInt8} (h : root.HasEntry fs entry data) : root.holds fs entry = true := by
  cases root with
  | directory path =>
    obtain ⟨place, access, content, hfind, -⟩ := h
    exact FileSystem.isFile_eq_true_iff.2 ⟨place, access, content, hfind⟩
  | archive path =>
    obtain ⟨stored, e, hstores, hfind, hcontent⟩ := h
    rw [holds, FileSystem.openArchive_eq_ok_iff.2 hstores]
    dsimp only
    rw [Archive.holds, Archive.find?, hfind]
    dsimp only
    rw [hcontent]
    rfl

theorem lists_of_listsClasses {entries : List String} (h : root.ListsClasses fs entries) (hentry : entry ∈ entries) :
    root.Lists fs entry ∧ IsClassEntry entry := by
  cases root with
  | directory path => exact (h.2 entry).1 hentry
  | archive path =>
    obtain ⟨-, ⟨stored, hstores, -, hperm⟩ | ⟨-, rfl⟩⟩ := h
    · obtain ⟨hmem, hclass⟩ := List.mem_filter.1 (hperm.subset hentry)
      replace hclass : IsClassEntry entry := of_decide_eq_true hclass
      exact ⟨⟨stored, hstores, hmem, not_namesDirectory_of_isClass hclass.isClass⟩, hclass⟩
    · cases hentry

/-- An archive that holds a file stores an entry for it. -/
theorem lists_archive_of_holds {path : String} (hfile : ¬ Archive.NamesDirectory entry)
    (h : (archive path).holds fs entry = true) : (archive path).Lists fs entry := by
  rw [holds] at h
  split at h
  · next stored hopen =>
    unfold Archive.holds Archive.find? at h
    split at h
    · next e hfind =>
      have hname : e.name = entry := by simpa using List.find?_some hfind
      exact ⟨stored, FileSystem.openArchive_eq_ok_iff.1 hopen,
        List.mem_map.2 ⟨e, List.mem_of_find?_eq_some hfind, hname⟩, hfile⟩
    · cases h
  · cases h

/-- A file that a root holds and shows is listed. -/
theorem lists_of_holds (hsound : fs.root.Sound) (hfile : ¬ Archive.NamesDirectory entry) (hshows : root.Shows fs entry)
    (h : root.holds fs entry = true) : root.Lists fs entry := by
  cases root with
  | directory path =>
    obtain ⟨hpath, hentry, hread⟩ := hshows
    rcases FileSystem.lists_or_blocked hsound hpath hentry h with hlists | ⟨base, front, name, hbase, hfront, hblocked⟩
    · exact hlists
    · obtain ⟨access, hnode, hnot⟩ := hblocked.exists_node
      rw [← FileSystem.nodeAt_append hbase, (FileSystem.find_destination hbase).1] at hnode
      rw [hread front name access hfront hnode] at hnot
      cases hnot
  | archive path => exact lists_archive_of_holds hfile h

/-- A class entry that a root shows is among those that a scan takes, if it is listed. -/
theorem mem_of_listsClasses {entries : List String} (h : root.ListsClasses fs entries) (hshows : root.Shows fs entry)
    (hclass : IsClassEntry entry) (hlists : root.Lists fs entry) : entry ∈ entries := by
  cases root with
  | directory path => exact (h.2 entry).2 ⟨hlists, hclass⟩
  | archive path =>
    obtain ⟨stored, hstores, hmem, -⟩ := hlists
    obtain ⟨-, ⟨stored', hstores', -, hperm⟩ | ⟨hrefused, -⟩⟩ := h
    · obtain rfl := hstores.unique hstores'
      exact hperm.symm.subset (List.mem_filter.2 ⟨hmem, decide_eq_true hclass⟩)
    · obtain ⟨e, he, hnot⟩ := hrefused stored hstores
      exact absurd hnot (hshows stored hstores e he)

/-- What a root lists it lists later, unless it is an archive that was written. -/
theorem Lists.mono {written : List String → Prop} (h : root.Lists fs entry) (hgrows : FileSystem.Grows written fs fs')
    (hclear : ∀ path, root = .archive path → ¬ written (fs.destination path)) : root.Lists fs' entry := by
  cases root with
  | directory path => exact hgrows.lists h
  | archive path =>
    obtain ⟨stored, hstores, hmem⟩ := h
    exact ⟨stored, hgrows.stores hstores (hclear path rfl), hmem⟩

/-- What a root has later under the name of an entry it had before, unless it was written. The root was there before, or
its path goes down only. -/
theorem HasEntry.before {written : List String → Prop} {data : List UInt8} (h : root.HasEntry fs' entry data)
    (hgrows : FileSystem.Grows written fs fs') (hentry : ∀ path, root = .directory path → Path.IsDirect entry)
    (hthere : fs.exists? root.path = true ∨ Path.IsPlain root.path)
    (hclear : ¬ written (fs.destination (root.pathOf entry))) : root.HasEntry fs entry data := by
  cases root with
  | directory path =>
    replace hentry := hentry path rfl
    rcases hthere with hthere | hplain
    · obtain ⟨found, hfound⟩ := FileSystem.exists?_eq_true_iff.1 hthere
      exact hgrows.yields_join_before hfound hentry h hclear
    · refine hgrows.yields_before h (.inr ?_) hclear
      rw [Path.IsPlain, Path.steps_join path hentry.isAbsolute, List.mem_append, not_or]
      exact ⟨hplain, hentry.isPlain⟩
  | archive path =>
    obtain ⟨stored, e, hstores, hfind, hcontent⟩ := h
    exact ⟨stored, e, hgrows.stores_before hstores hthere hclear, hfind, hcontent⟩

theorem HasEntry.unique {data data' : List UInt8} (h : root.HasEntry fs entry data) (h' : root.HasEntry fs entry data') :
    data = data' :=
  Except.ok.inj ((readEntry_eq_ok_iff.2 h).symm.trans (readEntry_eq_ok_iff.2 h'))

end Root

/-! ## The root that is searched for -/

/-- A scan reads an entry of a root: the root lists it, no entry in front of it shares its name, and it can be read. -/
structure Scan.LooksAt (fs : FileSystem) (inputs : Inputs) (root : Root) (entry : String) (data : List UInt8) :
    Prop where
  owned : ∃ es, ListsAll fs (inputs.directories.map Root.directory ++ inputs.archives.map Root.archive) es ∧
    (root, entry) ∈ ownedEntries es
  read : root.HasEntry fs entry data

namespace ListsAll

variable {fs : FileSystem} {roots front behind : List Root} {es : List (Root × String)}

theorem exists_append (h : ListsAll fs (front ++ behind) es) :
    ∃ first rest, es = first ++ rest ∧ ListsAll fs front first ∧ ListsAll fs behind rest := by
  induction front generalizing es with
  | nil => exact ⟨[], es, rfl, .nil, h⟩
  | cons root front ih =>
    cases h with
    | @cons _ _ entries others hroot hothers =>
      obtain ⟨first, rest, rfl, hfirst, hrest⟩ := ih hothers
      exact ⟨_, rest, (List.append_assoc ..).symm, .cons hroot hfirst, hrest⟩

theorem exists_of_mem (h : ListsAll fs roots es) {x : Root × String} (hx : x ∈ es) :
    x.1 ∈ roots ∧ x.1.Lists fs x.2 ∧ IsClassEntry x.2 := by
  induction h with
  | nil => cases hx
  | cons hroot _ ih =>
    rcases List.mem_append.1 hx with hx | hx
    · obtain ⟨entry, hentry, rfl⟩ := List.mem_map.1 hx
      exact ⟨List.mem_cons_self, Root.lists_of_listsClasses hroot hentry⟩
    · obtain ⟨hmem, hlists⟩ := ih hx
      exact ⟨List.mem_cons_of_mem _ hmem, hlists⟩

/-- A class entry that a root holds and shows is among the entries. -/
theorem mem_of_holds (h : ListsAll fs roots es) (hsound : fs.root.Sound) {root : Root} (hroot : root ∈ roots)
    {entry : String} (hclass : IsClassEntry entry) (hshows : root.Shows fs entry)
    (hholds : root.holds fs entry = true) : (root, entry) ∈ es := by
  induction h with
  | nil => cases hroot
  | cons hfirst _ ih =>
    rcases List.mem_cons.1 hroot with rfl | hroot
    · have hlists := Root.lists_of_holds hsound (not_namesDirectory_of_isClass hclass.isClass) hshows hholds
      exact List.mem_append_left _ (List.mem_map.2 ⟨entry, Root.mem_of_listsClasses hfirst hshows hclass hlists, rfl⟩)
    · exact List.mem_append_right _ (ih hroot)

end ListsAll

/-- A scan reads the owned ones among the entries that it goes through. -/
theorem Scan.looksAt_of_mem_entries {fs : FileSystem} (hsound : fs.root.Sound) {inputs : Inputs} {root : Root}
    {entry : String} (howned : (root, entry) ∈ ownedEntries (inputs.entries fs)) {data : List UInt8}
    (hread : root.readEntry fs entry = .ok data) : LooksAt fs inputs root entry data :=
  ⟨⟨_, listsAll_entries hsound inputs, howned⟩, Root.readEntry_eq_ok_iff.1 hread⟩

theorem mem_of_mem_ownedFrom {earlier es : List (Root × String)} {x : Root × String} (h : x ∈ ownedFrom earlier es) :
    x ∈ es ∧ isShadowed earlier x.2 = false := by
  induction es generalizing earlier with
  | nil => cases h
  | cons y es ih =>
    rw [ownedFrom_cons, List.mem_append] at h
    rcases h with h | h
    · cases hshadowed : isShadowed earlier y.2 with
      | true =>
        rw [if_pos hshadowed] at h
        cases h
      | false =>
        rw [if_neg (by simp [hshadowed]), List.mem_singleton] at h
        rw [h]
        exact ⟨List.mem_cons_self, hshadowed⟩
    · obtain ⟨hmem, hshadowed⟩ := ih h
      refine ⟨List.mem_cons_of_mem _ hmem, ?_⟩
      rw [isShadowed, List.any_append, Bool.or_eq_false_iff] at hshadowed
      exact hshadowed.1

namespace Inputs

/-- The roots in front of a root. -/
def before (inputs : Inputs) (root : Root) : List Root := inputs.roots.takeWhile fun r => r ≠ root

theorem roots_eq_before {inputs : Inputs} {root : Root} (h : root ∈ inputs.roots) :
    ∃ behind, inputs.roots = inputs.before root ++ root :: behind ∧ root ∉ inputs.before root := by
  obtain ⟨front, behind, hroots, hnot⟩ := List.eq_append_cons_of_mem h
  have hbefore : inputs.before root = front := by
    rw [before, hroots, List.takeWhile_append_of_pos fun r hr => ?_]
    · simp
    · simpa using fun heq : r = root => hnot (heq ▸ hr)
  exact ⟨behind, by rw [hbefore, hroots], by rwa [hbefore]⟩

theorem mem_roots_of_looksAt {inputs : Inputs} {fs : FileSystem} {root : Root} {entry : String} {data : List UInt8}
    (hlooks : Scan.LooksAt fs inputs root entry data) :
    root ∈ inputs.roots ∧ root.Lists fs entry ∧ IsClassEntry entry := by
  obtain ⟨es, hes, howned⟩ := hlooks.owned
  rw [← ownedFrom_nil_left] at howned
  exact hes.exists_of_mem (mem_of_mem_ownedFrom howned).1

/-- A root in front of the one whose entry a scan reads does not hold the entry, unless unseen. -/
theorem not_holds_of_looksAt {inputs : Inputs} {fs : FileSystem} {root r : Root} {entry : String} {data : List UInt8}
    (hsound : fs.root.Sound) (hlooks : Scan.LooksAt fs inputs root entry data) (hr : r ∈ inputs.before root)
    (hshows : r.Shows fs entry) : ¬ r.holds fs entry = true := by
  intro hholds
  obtain ⟨hroot, -, hclass⟩ := mem_roots_of_looksAt hlooks
  obtain ⟨es, hes, howned⟩ := hlooks.owned
  replace hes : ListsAll fs inputs.roots es := hes
  rw [← ownedFrom_nil_left] at howned
  obtain ⟨behind, hroots, hnot⟩ := roots_eq_before hroot
  rw [hroots] at hes
  obtain ⟨first, rest, rfl, hfirst, -⟩ := hes.exists_append
  rw [ownedFrom_append, List.mem_append] at howned
  rcases howned with howned | howned
  · exact hnot (hfirst.exists_of_mem (mem_of_mem_ownedFrom howned).1).1
  · have hshadowed := (mem_of_mem_ownedFrom howned).2
    rw [Bool.eq_false_iff, ne_eq, isShadowed_iff] at hshadowed
    have hmem := hfirst.mem_of_holds hsound hr hclass hshows hholds
    exact hshadowed ⟨_, List.mem_append_right _ hmem, rfl⟩

/-- The root whose entry a scan reads is the first that holds the class, if the first one does not hold it unseen. -/
theorem locate?_of_looksAt {inputs : Inputs} {fs : FileSystem} {root : Root} {className : String} {data : List UInt8}
    (hsound : fs.root.Sound) (hlooks : Scan.LooksAt fs inputs root (classEntryName className) data)
    (hshows : ∀ r, inputs.locate? fs className = some r → r.Shows fs (classEntryName className)) :
    inputs.locate? fs className = some root ∧
      ∀ r ∈ inputs.before root, ¬ r.holds fs (classEntryName className) = true := by
  obtain ⟨behind, hroots, -⟩ := roots_eq_before (mem_roots_of_looksAt hlooks).1
  have hlocate : inputs.locate? fs className = ((inputs.before root).find? (·.holds fs (classEntryName className))).or
      (some root) := by
    rw [locate?, hroots, List.find?_append, List.find?_cons_of_pos (Root.holds_of_hasEntry hlooks.read)]
  cases hfront : (inputs.before root).find? (·.holds fs (classEntryName className)) with
  | some r =>
    rw [hfront, Option.some_or] at hlocate
    exact absurd (List.find?_some hfront)
      (not_holds_of_looksAt hsound hlooks (List.mem_of_find?_eq_some hfront) (hshows r hlocate))
  | none =>
    rw [hfront, Option.none_or] at hlocate
    exact ⟨hlocate, List.find?_eq_none.1 hfront⟩

end Inputs

/-! ## The first file with a name -/

section

variable {during : Surroundings} {archive : Archive} {fs : FileSystem} {place : List String}

/-- The first file with a property is the first of the first root that has one. -/
theorem Collects.exists_split_of_find? {before items : List Item} {roots : List Root}
    (h : Collects during archive before roots items) {p : Item → Bool} {item : Item} (hfind : items.find? p = some item) :
    ∃ front root behind now own, roots = front ++ root :: behind ∧
      (∀ r ∈ front, ∃ now own, r.Items during archive now own ∧ own.find? p = none) ∧
      root.Items during archive now own ∧ own.find? p = some item := by
  induction h with
  | nil => cases hfind
  | @cons before own others root roots hown _ ih =>
    rw [List.find?_append] at hfind
    cases hfirst : own.find? p with
    | some item' =>
      rw [hfirst, Option.some_or, Option.some.injEq] at hfind
      subst hfind
      exact ⟨[], root, roots, _, own, rfl, by simp, hown, hfirst⟩
    | none =>
      rw [hfirst, Option.none_or] at hfind
      obtain ⟨front, root', behind, now, own', rfl, hfront, hrest⟩ := ih hfind
      exact ⟨root :: front, root', behind, now, own', rfl, List.forall_mem_cons.2 ⟨⟨_, own, hown, hfirst⟩, hfront⟩, hrest⟩

/-- What is read of the first file of a root with a name is what the root has under the name. -/
theorem Root.hasEntry_of_find? (haround : during.Around fs place) {root : Root} {entry : String}
    (hclear : fs.destination (root.pathOf entry) ≠ place) {now later : Nat} {own : List Item}
    (hown : root.Items during archive now own) {item : Item} (hfind : own.find? (·.name == entry) = some item)
    {data : List UInt8} (hreads : item.source.Reads during archive later data) : root.HasEntry fs entry data := by
  have hname := Item.name_of_find? hfind
  cases root with
  | directory path =>
    obtain ⟨names, -, -, rfl⟩ := hown
    obtain ⟨name, -, rfl⟩ := List.mem_map.1 (List.mem_of_find?_eq_some hfind)
    subst hname
    exact (haround.yields_iff _ _ hclear).1 hreads
  | archive path =>
    obtain ⟨stored, hstores, rfl⟩ := hown
    replace hclear : fs.destination path ≠ place := hclear
    rw [haround.stores_iff _ _ hclear] at hstores
    rw [List.find?_map, List.find?_filter, Option.map_eq_some_iff] at hfind
    obtain ⟨x, hx, rfl⟩ := hfind
    obtain ⟨stored', e, hstores', hentry, hcontent⟩ := hreads
    rw [haround.stores_iff _ _ hclear] at hstores'
    obtain rfl := hstores.unique hstores'
    have hmem := List.mem_zipIdx_iff_getElem?.1 (List.mem_of_find?_eq_some hx)
    obtain rfl := Option.some.inj (hmem.symm.trans hentry)
    have hboth := List.find?_some hx
    simp only [decide_eq_true_eq] at hboth
    have hnot : ¬ Archive.NamesDirectory entry := hname ▸ hboth.1
    -- an entry that stands for a directory has another name
    have hsame : stored.zipIdx.find? ((·.name == entry) ∘ Prod.fst) = some x := by
      rw [← hx]
      congr 1
      funext y
      by_cases hy : y.1.name = entry
      · simp [hy, hnot]
      · simp [hy]
    refine ⟨stored, x.1, hstores, ?_, hcontent⟩
    rw [← List.zipIdx_map_fst 0 stored, List.find?_map, hsame, Option.map_some]

/-- A root that lists a file holds it when an archive is assembled. -/
theorem Root.exists_item (haround : during.Around fs place) {root : Root} {entry : String}
    (hclear : ∀ path, root = .archive path → fs.destination path ≠ place) (hlists : root.Lists fs entry) {now : Nat}
    {own : List Item} (hown : root.Items during archive now own) :
    ∃ item ∈ own, (item.name == entry) = true := by
  cases root with
  | directory path =>
    obtain ⟨names, hlisting, -, rfl⟩ := hown
    have hmem := ((haround.listing_iff _ _).1 hlisting).mem_iff entry
    exact ⟨_, List.mem_map.2 ⟨entry, hmem.2 hlists, rfl⟩, beq_iff_eq.2 rfl⟩
  | archive path =>
    obtain ⟨stored, hstores, hmem, hfile⟩ := hlists
    obtain ⟨stored', hstores', rfl⟩ := hown
    obtain rfl := hstores.unique ((haround.stores_iff _ _ (hclear path rfl)).1 hstores')
    obtain ⟨e, he, rfl⟩ := List.mem_map.1 hmem
    obtain ⟨k, hk⟩ := List.mem_iff_getElem?.1 he
    have hindexed : (e, k) ∈ stored.zipIdx := List.mem_zipIdx_iff_getElem?.2 hk
    exact ⟨_, List.mem_map.2 ⟨_, List.mem_filter.2 ⟨hindexed, decide_eq_true hfile⟩, rfl⟩, beq_iff_eq.2 rfl⟩

/-- A root that holds a file is there. -/
theorem Root.exists_of_items (haround : during.Around fs place) {root : Root} {now : Nat} {own : List Item}
    (hown : root.Items during archive now own) {item : Item} (hitem : item ∈ own) : fs.exists? root.path = true := by
  have hback {path : String} {found : List String × FileTree}
      (hfind : (during (archive.take now) (archive.take now)).find path = .ok found) : fs.exists? path = true := by
    obtain ⟨tree, hfound, -⟩ := (haround.back _ _).find hfind
    exact FileSystem.exists?_eq_true_iff.2 ⟨_, hfound⟩
  cases root with
  | directory path =>
    obtain ⟨names, hlisting, -, rfl⟩ := hown
    obtain ⟨name, hname, rfl⟩ := List.mem_map.1 hitem
    obtain ⟨place, tree, q, hfind, -⟩ := (hlisting.mem_iff name).1 hname
    exact hback hfind
  | archive path =>
    obtain ⟨stored, ⟨place, access, content, hfind, -⟩, rfl⟩ := hown
    exact hback hfind

/-- If a root has a file with a name, the first file with the name is one of this root or of one in front of it. -/
theorem Collects.exists_root_upTo {before items : List Item} {front behind : List Root} {root : Root}
    (h : Collects during archive before (front ++ root :: behind) items) {p : Item → Bool}
    (hroot : ∀ now own, root.Items during archive now own → ∃ item ∈ own, p item = true) :
    ∃ item, items.find? p = some item ∧
      ∃ r ∈ front ++ [root], ∃ now own, r.Items during archive now own ∧ own.find? p = some item := by
  obtain ⟨first, rest, rfl, hfront, hbehind⟩ := h.exists_append
  cases hbehind with
  | @cons _ own others _ _ hown _ =>
    obtain ⟨item, hitem⟩ := Option.isSome_iff_exists.1 (List.find?_isSome.2 (hroot _ own hown))
    rw [List.find?_append, List.find?_append, hitem, Option.some_or]
    cases hfirst : first.find? p with
    | some item' =>
      obtain ⟨_, r, _, now, own', rfl, -, hown', hfind⟩ := hfront.exists_split_of_find? hfirst
      exact ⟨item', rfl, r, by simp, now, own', hown', hfind⟩
    | none => exact ⟨item, rfl, root, List.mem_append_right _ (List.mem_singleton_self root), _, own, hown, hitem⟩

end

/-! ## Agreement -/

/-- **Which copy of a class counts.** The root whose copy of a class is read by a scan is the root that is found for the
class, and there the bytes are found that the scan has read, if the root that is found does not hold the class unseen. An
archive that is assembled, and in which no other copy takes the place of the class, then holds these bytes in its only
entry for the class. Its file must not stand where the roots up to this one look for the class, and must not bring such
roots into being by paths that go up. -/
theorem agree_of_looksAt {inputs : Inputs} {fs : FileSystem} {className : String} {root : Root} {data : List UInt8}
    (hsound : fs.root.Sound) (hname : IsProperName className)
    (hlooks : Scan.LooksAt fs inputs root (classEntryName className) data)
    (hshows : ∀ r, inputs.locate? fs className = some r → r.Shows fs (classEntryName className)) :
    inputs.locate? fs className = some root ∧ root.readEntry fs (classEntryName className) = .ok data ∧
      ∀ (unfinished : Unfinished) (substitutions : List (String × String)) (output : String) (report : AssemblyReport)
        (fs' : FileSystem), substitutions.lookup (classEntryName className) = none →
        (∀ r ∈ inputs.before root ++ [root],
          fs.destination (r.pathOf (classEntryName className)) ≠ fs.destination output ∧
          (fs'.exists? r.path = true → fs.exists? r.path = true ∨ Path.IsPlain r.path)) →
        assemble unfinished inputs substitutions output fs = .ok report fs' →
        ∃ archive place access, fs'.find output = .ok (place, .file access (.ofArchive archive)) ∧
          archive.filter (·.name == classEntryName className) = [⟨classEntryName className, .bytes data⟩] := by
  obtain ⟨hlocate, hunheld⟩ := Inputs.locate?_of_looksAt hsound hlooks hshows
  refine ⟨hlocate, Root.readEntry_eq_ok_iff.2 hlooks.read,
    fun unfinished substitutions output report fs' hnone hclear hassemble => ?_⟩
  obtain ⟨hroot, hlists, -⟩ := Inputs.mem_roots_of_looksAt hlooks
  obtain ⟨behind, hroots, -⟩ := Inputs.roots_eq_before hroot
  obtain ⟨fs₁, items, s, hbegin, hitems, hmerged, rfl, hwrite⟩ := merged_of_assemble hsound hassemble
  have hbefore := FileSystem.grows_beginArchive hbegin
  have haround := around_during hsound hbegin unfinished
  have hsame (path : String) : fs₁.destination path = fs.destination path := hbefore.destination_eq path
  have hclear₁ : ∀ r ∈ inputs.before root ++ [root],
      fs₁.destination (r.pathOf (classEntryName className)) ≠ fs₁.destination output := by
    intro r hr
    rw [hsame, hsame]
    exact (hclear r hr).1
  -- what such a root has meanwhile it had before
  have hold : ∀ r ∈ inputs.before root ++ [root], ∀ data', r.HasEntry fs₁ (classEntryName className) data' →
      fs₁.exists? r.path = true → r.HasEntry fs (classEntryName className) data' := by
    intro r hr data' hhas hexists
    obtain ⟨found, hfound⟩ := FileSystem.exists?_eq_true_iff.1 hexists
    have hthere := FileSystem.exists?_eq_true_iff.2 (FileSystem.exists_find_of_write hwrite hfound)
    exact hhas.before hbefore (fun _ _ => hname.isDirect) ((hclear r hr).2 hthere) (hclear r hr).1
  have hself : root ∈ inputs.before root ++ [root] := List.mem_append_right _ (List.mem_singleton_self root)
  have hlists₁ : root.Lists fs₁ (classEntryName className) := hlists.mono hbefore <| by
    rintro path rfl
    exact (hclear _ hself).1
  have hitem : ∀ now own, root.Items (fs₁.during output unfinished) s.archive now own →
      ∃ item ∈ own, (item.name == classEntryName className) = true := by
    refine fun now own => Root.exists_item haround ?_ hlists₁
    rintro path rfl
    have hplace := hclear₁ (.archive path) hself
    rwa [Root.pathOf] at hplace
  rw [hroots] at hitems
  obtain ⟨item, hfirst, r, hr, now, own, hown, hfind⟩ := hitems.exists_root_upTo hitem
  have hnamed : classEntryName className ∈ items.map (·.name) :=
    List.mem_map.2 ⟨item, List.mem_of_find?_eq_some hfirst, Item.name_of_find? hfirst⟩
  obtain ⟨k, stored, -, hentry, hbelongs⟩ := (hmerged.merges output).exists_entry hnamed
  unfold Belongs at hbelongs
  rw [hnone] at hbelongs
  obtain ⟨item', hfirst', hreads⟩ := hbelongs
  obtain rfl := Option.some.inj (hfirst.symm.trans hfirst')
  have hhas₁ := Root.hasEntry_of_find? haround (hclear₁ r hr) hown hfind hreads
  have hhas := hold r hr stored hhas₁ (Root.exists_of_items haround hown (List.mem_of_find?_eq_some hfind))
  obtain ⟨access, hfile⟩ := FileSystem.find_of_write hwrite
  refine ⟨s.archive, _, access, hfile, ?_⟩
  rcases List.mem_append.1 hr with hfront | hlast
  · exact absurd (Root.holds_of_hasEntry hhas) (hunheld r hfront)
  · obtain rfl := List.mem_singleton.1 hlast
    rw [hentry, hhas.unique hlooks.read]

theorem looksAt_overlapping : Scan.LooksAt overlapping overlappingRoots (.directory "in") (classEntryName "A") [1] := by
  -- what the archive lists is sorted, so only the first entry is evaluated
  have hhead : (overlappingRoots.entries overlapping).head? = some (.directory "in", "A.class") := by decide +kernel
  obtain ⟨rest, hentries⟩ := List.head?_eq_some_iff.1 hhead
  refine Scan.looksAt_of_mem_entries sound_overlapping ?_ (by decide +kernel)
  rw [hentries, ← ownedFrom_nil_left, ownedFrom_cons]
  exact List.mem_append_left _ List.mem_cons_self

theorem agree_of_looksAt_overlapping :
    overlappingRoots.locate? overlapping "A" = some (.directory "in") ∧
      ∃ report fs' archive place access, assemble .stored overlappingRoots [] "out.jar" overlapping = .ok report fs' ∧
        fs'.find "out.jar" = .ok (place, .file access (.ofArchive archive)) ∧
        archive.filter (·.name == "A.class") = [⟨"A.class", .bytes [1]⟩] := by
  have hbefore : overlappingRoots.before (.directory "in") = [] := by decide
  have hshows : ∀ r, overlappingRoots.locate? overlapping "A" = some r → r.Shows overlapping (classEntryName "A") := by
    intro r hr
    have hfirst : overlappingRoots.locate? overlapping "A" = some (.directory "in") := by decide +kernel
    obtain rfl := Option.some.inj (hfirst.symm.trans hr)
    exact Root.shows_of_pieces_eq (by decide) (by decide)
      (show Path.pieces (classEntryName "A") = ["A.class"] by decide)
      (show overlapping.root.nodeAt (overlapping.destination "in") = some (.directory .full []) from rfl) rfl
  obtain ⟨hlocate, -, hassembled⟩ := agree_of_looksAt sound_overlapping (by decide) looksAt_overlapping hshows
  have hbegin : beginArchive "out.jar" overlapping = .ok () (FileSystem.after (beginArchive "out.jar" overlapping)) :=
    FileSystem.eq_ok_of_succeeds (by decide +kernel)
  obtain ⟨report, fs', h⟩ := exists_assemble .stored sound_overlapping hbegin (show ∀ root ∈ overlappingRoots.roots,
    root.isReady (FileSystem.after (beginArchive "out.jar" overlapping))
      ((FileSystem.after (beginArchive "out.jar" overlapping)).destination "out.jar") [] = true by decide +kernel)
  have hclear : overlapping.destination (Path.join "in" "A.class") ≠ overlapping.destination "out.jar" ∧
      overlapping.exists? "in" = true := by
    decide +kernel
  obtain ⟨archive, place, access, hfile, hentry⟩ := hassembled .stored [] "out.jar" report fs' rfl
    (by simpa [hbefore] using ⟨hclear.1, fun _ => .inl hclear.2⟩) h
  exact ⟨hlocate, report, fs', archive, place, access, h, hfile, hentry⟩

/-- An archive with the class `A` and an entry that cannot be opened, and one with another copy of the class. -/
def besideRefused : FileSystem where
  root := .directory .full [("first.jar", .file .full (.ofArchive [⟨"A.class", .bytes [1]⟩,
      ⟨"B.class", .refused "unsupported Zip archive: Password required to decrypt file"⟩])),
    ("second.jar", .file .full (.ofArchive [⟨"A.class", .bytes [2]⟩]))]
  workingDirectory := []

/-- A directory with the class `A` that may be entered but not listed, and one with another copy of the class. -/
def besideUnlisted : FileSystem where
  root := .directory .full [("in", .directory ⟨false, true, true⟩ [("A.class", .file .full (.ofBytes [1]))]),
    ("other", .directory .full [("A.class", .file .full (.ofBytes [2]))])]
  workingDirectory := []

/-- The class `A` in a directory. -/
def alone : FileSystem where
  root := .directory .full [("in", .directory .full [("A.class", .file .full (.ofBytes [1]))])]
  workingDirectory := []

/-- The root whose copy of a class is read by a scan is found for the class. -/
def Inputs.FindsScanned (inputs : Inputs) (fs : FileSystem) : Prop :=
  ∀ className root data, IsProperName className → Scan.LooksAt fs inputs root (classEntryName className) data →
    inputs.locate? fs className = some root

theorem not_findsScanned (root : Root) (data : List UInt8) {inputs : Inputs} {fs : FileSystem} (hsound : fs.root.Sound)
    (hentry : (root, classEntryName "A") ∈ ownedEntries (inputs.entries fs))
    (hread : root.readEntry fs (classEntryName "A") = .ok data) (hother : inputs.locate? fs "A" ≠ some root) :
    ¬ inputs.FindsScanned fs :=
  fun h => hother (h "A" root data (by decide) (Scan.looksAt_of_mem_entries hsound hentry hread))

/-- A scan may read another copy of a class than the one that is found for it, and an archive may hold other bytes than
those that a scan has read. -/
theorem not_forall_agree_of_looksAt :
    (besideRefused.root.Sound ∧ ¬ Inputs.FindsScanned ⟨[], ["first.jar", "second.jar"]⟩ besideRefused) ∧
    (besideUnlisted.root.Sound ∧ ¬ Inputs.FindsScanned ⟨["in", "other"], []⟩ besideUnlisted) ∧
    ¬ ∀ (unfinished : Unfinished) (inputs : Inputs) (fs : FileSystem) (className : String) (root : Root)
      (data : List UInt8) (output : String) (report : AssemblyReport) (fs' : FileSystem) (archive : Archive)
      (place : List String) (access : Access), fs.root.Sound → IsProperName className →
      Scan.LooksAt fs inputs root (classEntryName className) data →
      assemble unfinished inputs [] output fs = .ok report fs' →
      fs'.find output = .ok (place, .file access (.ofArchive archive)) →
      archive.filter (·.name == classEntryName className) = [⟨classEntryName className, .bytes data⟩] := by
  refine ⟨?_, ?_, fun h => ?_⟩
  · have hsound : besideRefused.root.Sound := by
      simp only [besideRefused, FileTree.sound_directory_iff, FileTree.sound_file, List.forall_mem_cons]
      simp
      decide
    exact ⟨hsound, not_findsScanned (.archive "second.jar") [2] hsound (by decide +kernel) (by decide +kernel)
      (by decide +kernel)⟩
  · have hsound : besideUnlisted.root.Sound := by
      simp only [besideUnlisted, FileTree.sound_directory_iff, FileTree.sound_file, List.forall_mem_cons]
      simp
      decide
    exact ⟨hsound, not_findsScanned (.directory "other") [2] hsound (by decide +kernel) (by decide +kernel)
      (by decide +kernel)⟩
  · have hsound : alone.root.Sound := by
      simp only [alone, FileTree.sound_directory_iff, FileTree.sound_file, List.forall_mem_cons]
      simp
      decide
    have hlooks : Scan.LooksAt alone ⟨["in"], []⟩ (.directory "in") (classEntryName "A") [1] :=
      Scan.looksAt_of_mem_entries hsound (by decide +kernel) (by decide +kernel)
    have hbegin : beginArchive "in/A.class" alone = .ok () (FileSystem.after (beginArchive "in/A.class" alone)) :=
      FileSystem.eq_ok_of_succeeds (by decide +kernel)
    have hall : (∀ root ∈ Inputs.roots ⟨["in"], []⟩, root.isReady (FileSystem.after (beginArchive "in/A.class" alone))
          ((FileSystem.after (beginArchive "in/A.class" alone)).destination "in/A.class") [] = true) ∧
        collectAll (FileSystem.after (beginArchive "in/A.class" alone)) [] (Inputs.roots ⟨["in"], []⟩) =
          .ok [⟨"A.class", .file "in/A.class"⟩] ∧
        ((FileSystem.after (beginArchive "in/A.class" alone)).during "in/A.class" .stored [] []).readFile "in/A.class" =
          .ok [] := by
      decide +kernel
    generalize FileSystem.after (beginArchive "in/A.class" alone) = fs₁ at hbegin hall
    obtain ⟨hready, hcollect, hempty⟩ := hall
    obtain ⟨report, fs', archive, place, access, hassemble, hfile, hmerges⟩ :=
      exists_merges .stored hsound hbegin hready hcollect
    have hentry := h .stored _ _ _ _ _ _ _ _ _ _ _ hsound (by decide) hlooks hassemble hfile
    obtain ⟨k, data, hk, hentry', hbelongs⟩ := hmerges.exists_entry (List.mem_singleton_self "A.class")
    obtain ⟨-, rfl⟩ : "A.class" = classEntryName "A" ∧ data = [1] := by simpa using hentry'.symm.trans hentry
    -- the class is read when the archive has no entry, and its file is empty
    have hlength : archive.length = 1 := by
      rw [← List.length_map (·.name), hmerges.names]
      rfl
    obtain ⟨hlt, -⟩ := List.getElem?_eq_some_iff.1 hk
    obtain rfl : k = 0 := by omega
    obtain ⟨item, hfirst, hreads⟩ := hbelongs
    obtain rfl := Option.some.inj hfirst
    cases (FileSystem.readFile_eq_ok_iff.1 hempty).unique hreads

end Registrar
