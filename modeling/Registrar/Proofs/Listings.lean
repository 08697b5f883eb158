import Registrar.Proofs.Walks

/-!
# Listings of directories

* `FileTree.Listable` : a tree of files and of directories that can be listed and entered; `FileTree.Within` : its paths
  are short enough. `Listable.listed_iff` : then just the files are listed;
* `FileTree.Reordered` : the same tree, with the entries of its directories in other orders. `Reordered.walk_eq` : a
  walk does not see the difference;
* `Path.namesDirectory_join`, `FileSystem.find_join_leaf` : a listed path behind that of the directory;
* `FileSystem.filesBelow_spec` : what the listing of such a tree is.
-/

namespace Registrar

namespace FileTree

/-! ## Trees that can be listed -/

/-- A tree of files and of directories that can be listed and entered, whose entries have names of their own that file
systems take. -/
inductive Listable : FileTree → Prop
  | file (access : Access) (content : File) : Listable (.file access content)
  | directory {access : Access} {entries : List (String × FileTree)} : access.read = true → access.enter = true →
      (entries.map Prod.fst).Nodup →
      (∀ entry ∈ entries, IsName entry.1 ∧ '\x00' ∉ entry.1.toList ∧ FileSystem.Fits entry.1) →
      (∀ entry ∈ entries, Listable entry.2) → Listable (.directory access entries)

/-- Everything below a tree with a path has a path that is short enough to be used. -/
def Within (path : String) (tree : FileTree) : Prop :=
  ∀ q leaf, q ≠ [] → tree.get? q = some leaf →
    (Path.join path (Path.ofPieces q)).utf8ByteSize < Path.maxLength

theorem within_file (path : String) (access : Access) (content : File) : Within path (.file access content) := by
  intro q leaf hq hget
  obtain ⟨name, q, rfl⟩ := List.exists_cons_of_ne_nil hq
  cases hget

theorem within_directory {path : String} {access : Access} {entries : List (String × FileTree)}
    (hsound : Sound (.directory access entries))
    (h : ∀ entry ∈ entries, (Path.join path entry.1).utf8ByteSize < Path.maxLength ∧
      Within (Path.join path entry.1) entry.2) : Within path (.directory access entries) := by
  intro q leaf hq hget
  obtain ⟨name, q, rfl⟩ := List.exists_cons_of_ne_nil hq
  have hnames := (hsound.of_get? hget).1
  rw [get?] at hget
  split at hget
  · next tree hlookup =>
    obtain ⟨hshort, hbelow⟩ := h _ (mem_of_lookup hlookup)
    by_cases hne : q = []
    · subst hne
      rw [Path.ofPieces_singleton]
      exact hshort
    · have hlength := hbelow q leaf hne hget
      rw [List.forall_mem_cons] at hnames
      rw [Path.utf8ByteSize_join _ (Path.isAbsolute_ofPieces_of_isName hne hnames.2), Path.room_join path hnames.1]
        at hlength
      rw [Path.utf8ByteSize_join path (Path.isAbsolute_ofPieces_of_isName (List.cons_ne_nil name q)
        (List.forall_mem_cons.2 hnames)), Path.utf8ByteSize_ofPieces_cons name hne]
      omega
  · cases hget

namespace Listable

variable {tree : FileTree}

theorem sound (h : Listable tree) : Sound tree := by
  induction h with
  | file access content => exact .file access content
  | directory _ _ hnodup hnames _ ih => exact .directory hnodup (fun entry hentry => (hnames entry hentry).1) ih

theorem of_lookup {access : Access} {entries : List (String × FileTree)} (h : Listable (.directory access entries))
    {name : String} (hlookup : entries.lookup name = some tree) :
    (IsName name ∧ '\x00' ∉ name.toList ∧ FileSystem.Fits name) ∧ Listable tree := by
  have hmem := mem_of_lookup hlookup
  cases h with
  | directory _ _ _ hnames htrees => exact ⟨hnames _ hmem, htrees _ hmem⟩

theorem of_get? (h : Listable tree) {q : List String} {leaf : FileTree} (hget : tree.get? q = some leaf) :
    (∀ name ∈ q, IsName name ∧ '\x00' ∉ name.toList ∧ FileSystem.Fits name) ∧ Listable leaf := by
  induction q generalizing tree with
  | nil =>
    cases hget
    exact ⟨by simp, h⟩
  | cons name q ih =>
    cases tree with
    | file access content => cases hget
    | directory access entries =>
      rw [get?] at hget
      split at hget
      · next below hlookup =>
        obtain ⟨hname, hbelow⟩ := h.of_lookup hlookup
        obtain ⟨hnames, hleaf⟩ := ih hbelow hget
        exact ⟨List.forall_mem_cons.2 ⟨hname, hnames⟩, hleaf⟩
      · cases hget

/-- All directories of such a tree are open. -/
theorem access_of_nodeAt (h : Listable tree) {q : List String} {access : Access}
    (hnode : tree.nodeAt q = some (.directory access [])) : access.read = true ∧ access.enter = true := by
  obtain ⟨entries, hget⟩ := nodeAt_eq_directory_iff.1 hnode
  cases (h.of_get? hget).2 with
  | directory hread henter _ _ _ => exact ⟨hread, henter⟩

theorem canPass (h : Listable tree) {q : List String} {leaf : FileTree} (hget : tree.get? q = some leaf) :
    CanPass tree [] q := by
  rintro front name ⟨behind, rfl⟩
  rw [List.append_assoc, List.singleton_append] at hget
  obtain ⟨access, entries, hfront⟩ := exists_directory_of_get? hget
  have hnode := nodeAt_eq_directory_iff.2 ⟨entries, hfront⟩
  exact ⟨access, hnode, (h.access_of_nodeAt hnode).2⟩

theorem not_blocked (h : Listable tree) (room : Nat) (q : List String) : ¬ Blocked room tree q := by
  intro hblocked
  induction hblocked with
  | here hread =>
    cases h with
    | directory hlist =>
      rw [hlist] at hread
      cases hread
  | inside _ hlookup _ _ ih => exact ih (h.of_lookup hlookup).2

/-- What is listed is what leads to files. -/
theorem listed_iff (h : Listable tree) {path : String} (hwithin : tree.Within path) {q : List String} :
    Listed (Path.room path) tree q ↔ ∃ leaf, tree.get? q = some leaf ∧ leaf.isDirectory = false := by
  have hshort {q : List String} {leaf : FileTree} (hq : q ≠ []) (hget : tree.get? q = some leaf) :
      Path.room path + (Path.ofPieces q).utf8ByteSize < Path.maxLength := by
    have hnames : ∀ name ∈ q, IsName name := fun name hname => ((h.of_get? hget).1 name hname).1
    rw [← Path.utf8ByteSize_join path (Path.isAbsolute_ofPieces_of_isName hq hnames)]
    exact hwithin q leaf hq hget
  constructor
  · intro hlisted
    clear hwithin
    generalize Path.room path = room at hlisted hshort
    induction hlisted with
    | file => exact ⟨_, rfl, rfl⟩
    | @inside room access entries name tree q hread hlookup hlooks _ ih =>
      have hbelow (q : List String) : (FileTree.directory access entries).get? (name :: q) = tree.get? q := by
        rw [FileTree.get?, hlookup]
      obtain ⟨leaf, hget, hleaf⟩ := ih (h.of_lookup hlookup).2 fun {q leaf} hq hget => by
        have hlength := hshort (List.cons_ne_nil name q) ((hbelow q).trans hget)
        rw [Path.utf8ByteSize_ofPieces_cons name hq] at hlength
        omega
      exact ⟨leaf, (hbelow q).trans hget, hleaf⟩
    | @unseen room access entries name tree hread hlookup hnot =>
      have hget : (FileTree.directory access entries).get? [name] = some tree := by
        rw [FileTree.get?, hlookup]
        rfl
      have hlength := hshort (List.cons_ne_nil name []) hget
      rw [Path.ofPieces_singleton] at hlength
      cases h with
      | directory _ henter => exact absurd ⟨henter, hlength⟩ hnot
  · rintro ⟨leaf, hget, hleaf⟩
    refine (listed_or_blocked hget hleaf (h.canPass hget) fun front name hfront => ?_).resolve_right ?_
    · obtain ⟨behind, rfl⟩ := hfront
      rw [get?_append] at hget
      obtain ⟨below, hbelow, -⟩ := Option.bind_eq_some_iff.1 hget
      exact hshort (by simp) hbelow
    · rintro ⟨front, -, -, hblocked⟩
      exact h.not_blocked _ _ hblocked

/-- Every directory of the tree is listed, so that it does not matter whether those that cannot be are passed over. -/
theorem exists_walk (h : Listable tree) (room : Nat) : ∃ places, ∀ lenient, walk lenient room tree = .ok places := by
  obtain ⟨places, hplaces⟩ := FileTree.exists_walk h.sound (h.not_blocked room)
  refine ⟨places, fun lenient => ?_⟩
  cases lenient with
  | false => exact hplaces
  | true =>
    cases hwalk : walk true room tree with
    | ok places' =>
      have hsame := (ascending_of_walk h.sound hplaces).ext (ascending_of_walk h.sound hwalk) fun q =>
        (mem_walk_iff h.sound hplaces).trans (mem_walk_iff h.sound hwalk).symm
      rw [hsame]
    | error place =>
      cases h with
      | file access content => cases hwalk
      | directory hread =>
        obtain ⟨places', hlenient⟩ := exists_walk_lenient room _ hread
        rw [hlenient] at hwalk
        cases hwalk

end Listable

/-! ## Other orders -/

/-- The trees differ in nothing but the orders in which their directories hold the entries. -/
inductive Reordered : FileTree → FileTree → Prop
  | file (access : Access) (content : File) : Reordered (.file access content) (.file access content)
  | directory {access : Access} {entries entries' : List (String × FileTree)} :
      (entries.map Prod.fst).Perm (entries'.map Prod.fst) →
      (∀ entry ∈ entries, ∀ entry' ∈ entries', entry.1 = entry'.1 → Reordered entry.2 entry'.2) →
      Reordered (.directory access entries) (.directory access entries')

namespace Reordered

variable {tree tree' : FileTree}

theorem isDirectory_eq (h : Reordered tree tree') : tree.isDirectory = tree'.isDirectory := by
  cases h <;> rfl

theorem symm (h : Reordered tree tree') : Reordered tree' tree := by
  induction h with
  | file access content => exact .file access content
  | directory hnames _ ih =>
    exact .directory hnames.symm fun entry' hentry' entry hentry heq => ih entry hentry entry' hentry' heq.symm

theorem listable (h : Reordered tree tree') (htree : Listable tree) : Listable tree' := by
  induction h with
  | file access content => exact .file access content
  | @directory access entries entries' hnames _ ih =>
    cases htree with
    | directory hread henter hnodup hallnames htrees =>
      -- every entry has a counterpart under its name
      have hback : ∀ entry' ∈ entries', ∃ entry ∈ entries, entry.1 = entry'.1 := fun entry' hentry' =>
        List.mem_map.1 (hnames.mem_iff.2 (List.mem_map_of_mem hentry'))
      refine .directory hread henter (hnames.nodup_iff.1 hnodup) (fun entry' hentry' => ?_) fun entry' hentry' => ?_
      · obtain ⟨entry, hentry, heq⟩ := hback entry' hentry'
        exact heq ▸ hallnames entry hentry
      · obtain ⟨entry, hentry, heq⟩ := hback entry' hentry'
        exact ih entry hentry entry' hentry' heq (htrees entry hentry)

theorem get? (h : Reordered tree tree') (htree : Listable tree) {q : List String} {leaf : FileTree}
    (hget : tree.get? q = some leaf) : ∃ leaf', tree'.get? q = some leaf' ∧ Reordered leaf leaf' := by
  induction q generalizing tree tree' with
  | nil =>
    cases hget
    exact ⟨tree', rfl, h⟩
  | cons name q ih =>
    have hsound' := (h.listable htree).sound
    cases h with
    | file access content => cases hget
    | @directory access entries entries' hnames hsame =>
      rw [FileTree.get?] at hget
      split at hget
      · next below hlookup =>
        have hentry := mem_of_lookup hlookup
        obtain ⟨⟨_, below'⟩, hentry', rfl⟩ :=
          List.mem_map.1 (hnames.mem_iff.1 (List.mem_map_of_mem (f := Prod.fst) hentry))
        obtain ⟨leaf', hget', hleaf'⟩ := ih (hsame _ hentry _ hentry' rfl) (htree.of_lookup hlookup).2 hget
        refine ⟨leaf', ?_, hleaf'⟩
        rw [FileTree.get?, lookup_of_mem (sound_directory_iff.1 hsound').1 hentry']
        exact hget'
      · cases hget

theorem exists_leaf (h : Reordered tree tree') (htree : Listable tree) {q : List String}
    (hleaf : ∃ leaf, tree.get? q = some leaf ∧ leaf.isDirectory = false) :
    ∃ leaf', tree'.get? q = some leaf' ∧ leaf'.isDirectory = false := by
  obtain ⟨leaf, hget, hleaf⟩ := hleaf
  obtain ⟨leaf', hget', hsame⟩ := h.get? htree hget
  exact ⟨leaf', hget', hsame.isDirectory_eq.symm.trans hleaf⟩

/-- The same files are listed. -/
theorem listed_iff (h : Reordered tree tree') (htree : Listable tree) {path path' : String}
    (hwithin : tree.Within path) (hwithin' : tree'.Within path') {q : List String} :
    Listed (Path.room path) tree q ↔ Listed (Path.room path') tree' q := by
  have htree' := h.listable htree
  rw [htree.listed_iff hwithin, htree'.listed_iff hwithin']
  exact ⟨h.exists_leaf htree, h.symm.exists_leaf htree'⟩

/-- A walk lists the same in the same order: there is one ascending list of the places that lead to files. -/
theorem walk_eq (h : Reordered tree tree') (htree : Listable tree) {path path' : String} (hwithin : tree.Within path)
    (hwithin' : tree'.Within path') (lenient : Bool) :
    walk lenient (Path.room path) tree = walk lenient (Path.room path') tree' := by
  have htree' := h.listable htree
  obtain ⟨places, hwalk⟩ := htree.exists_walk (Path.room path)
  obtain ⟨places', hwalk'⟩ := htree'.exists_walk (Path.room path')
  have heq : places = places' :=
    (ascending_of_walk htree.sound (hwalk false)).ext (ascending_of_walk htree'.sound (hwalk' false)) fun q => by
      rw [mem_walk_iff htree.sound (hwalk false), mem_walk_iff htree'.sound (hwalk' false),
        h.listed_iff htree hwithin hwithin']
  rw [hwalk, hwalk', heq]

end Reordered

end FileTree

/-! ## Listed paths -/

theorem Path.namesDirectory_join (base : String) {q : List String} (hq : q ≠ []) (hnames : ∀ name ∈ q, IsName name) :
    namesDirectory (join base (ofPieces q)) = false := by
  obtain ⟨front, hpieces, -⟩ := exists_pieces_join base (isAbsolute_ofPieces_of_isName hq hnames)
  rw [pieces_ofPieces_of_isName hq hnames] at hpieces
  have hlast := hnames _ (List.getLast_mem hq)
  rw [namesDirectory, hpieces, List.getLast?_append_of_ne_nil _ hq, List.getLast?_eq_some_getLast hq]
  show (isIdle _ || _) = false
  rw [not_isIdle_of_isName hlast, Bool.false_or, beq_eq_false_iff_ne]
  exact hlast.2.2.1

namespace FileSystem

open FileTree

instance (name : String) : Decidable (Fits name) := inferInstanceAs (Decidable (_ ≤ _))

theorem check_eq_ok_iff {path : String} :
    check path = .ok () ↔ '\x00' ∉ path.toList ∧ path ≠ "" ∧ path.utf8ByteSize < Path.maxLength := by
  unfold check
  by_cases hnul : path.toList.contains '\x00' = true
  · rw [if_pos hnul]
    rw [List.contains_iff_mem] at hnul
    simp [hnul]
  · rw [if_neg hnul]
    rw [List.contains_iff_mem] at hnul
    by_cases hempty : path.isEmpty = true
    · rw [if_pos hempty]
      simp [String.isEmpty_iff.1 hempty]
    · rw [if_neg hempty]
      rw [String.isEmpty_iff] at hempty
      by_cases hlong : Path.maxLength ≤ path.utf8ByteSize
      · rw [if_pos hlong]
        simp [Nat.not_lt.2 hlong]
      · rw [if_neg hlong]
        simp [hnul, hempty, Nat.not_le.1 hlong]

variable {fs : FileSystem} {path : String} {place : List String} {tree : FileTree}

/-- Below a directory that is found, what stands at a place is found, if the tree can be listed. -/
theorem find_join_leaf (hfind : fs.find path = .ok (place, tree)) (htree : tree.Listable) (hwithin : tree.Within path)
    {q : List String} (hq : q ≠ []) {leaf : FileTree} (hget : tree.get? q = some leaf) :
    fs.find (Path.join path (Path.ofPieces q)) = .ok (place ++ q, leaf) := by
  have hall := (htree.of_get? hget).1
  have hnames : ∀ name ∈ q, IsName name := fun name hname => (hall name hname).1
  have hsteps := Path.steps_ofPieces hq hnames
  have hplain : Path.IsPlain (Path.ofPieces q) := fun hup => (hnames _ (hsteps ▸ hup)).2.2.1 rfl
  have hrelative := Path.isAbsolute_ofPieces_of_isName hq hnames
  have hdirectory := Path.namesDirectory_join path hq hnames
  obtain ⟨hnul, hempty, -⟩ := check_eq_ok_iff.1 (find_eq_ok_iff_follow.1 hfind).1
  refine (find_join_eq_ok_iff hfind hrelative hplain).2
    ⟨check_eq_ok_iff.2 ⟨?_, ?_, hwithin q leaf hq hget⟩, ?_, ?_, ?_, ?_, ?_, ?_⟩
  · have hslash : '\x00' ≠ '/' := by decide
    exact Path.not_mem_join hnul (Path.not_mem_ofPieces hslash fun name hname => (hall name hname).2.1) hslash
  · exact Path.join_ne_empty hempty _
  · rw [hsteps]
    exact fun name hname => (hall name hname).2.2
  · rw [hsteps]
    exact htree.canPass hget
  · rw [hsteps, hget]
  · rw [hsteps]
  · intro hnames
    rw [hdirectory] at hnames
    cases hnames
  · intro hinside
    rw [Path.namesDirectory_of_endsInside hinside] at hdirectory
    cases hdirectory

theorem filesBelow_eq_ok {lenient : Bool} {places : List (List String)} (hfind : fs.find path = .ok (place, tree))
    (hdirectory : tree.isDirectory = true) (hwalk : tree.walk lenient (Path.room path) = .ok places) :
    fs.filesBelow lenient path = .ok (places.map Path.ofPieces) :=
  filesBelow_eq_ok_iff.2 ⟨_, places, hfind, hdirectory, hwalk, rfl⟩

/-- **Listings.** Of a directory that can be listed and entered as a whole, with paths that are short enough to be
used, the strict and the lenient listing are the same. It holds the path of each file once and nothing else, and that
path behind the path of the directory leads back to the file. The paths ascend entry by entry, and the orders in which
the directories hold their entries do not matter. -/
theorem filesBelow_spec (hfind : fs.find path = .ok (place, tree)) (hdirectory : tree.isDirectory = true)
    (htree : tree.Listable) (hwithin : tree.Within path) : ∃ names,
      (∀ lenient, fs.filesBelow lenient path = .ok names) ∧
      names.Nodup ∧
      (∀ name, name ∈ names ↔ ∃ q leaf, tree.get? q = some leaf ∧ leaf.isDirectory = false ∧ name = Path.ofPieces q) ∧
      (∀ q leaf, tree.get? q = some leaf → leaf.isDirectory = false →
        Path.pieces (Path.ofPieces q) = q ∧
        fs.find (Path.join path (Path.ofPieces q)) = .ok (place ++ q, leaf)) ∧
      Ascending (names.map Path.pieces) ∧
      ∀ (fs' : FileSystem) path' place' tree', tree.Reordered tree' → fs'.find path' = .ok (place', tree') →
        tree'.Within path' → ∀ lenient, fs'.filesBelow lenient path' = .ok names := by
  obtain ⟨places, hwalk⟩ := htree.exists_walk (Path.room path)
  have hascending := ascending_of_walk htree.sound (hwalk false)
  -- a file is not the directory itself
  have hne : ∀ q leaf, tree.get? q = some leaf → leaf.isDirectory = false → q ≠ [] := by
    rintro q leaf hget hleaf rfl
    cases hget
    rw [hdirectory] at hleaf
    cases hleaf
  have hpieces : ∀ q leaf, tree.get? q = some leaf → leaf.isDirectory = false →
      Path.pieces (Path.ofPieces q) = q := fun q leaf hget hleaf =>
    Path.pieces_ofPieces_of_isName (hne q leaf hget hleaf) fun name hname => ((htree.of_get? hget).1 name hname).1
  have hback := map_pieces_of_walk htree.sound hdirectory (hwalk false)
  have hmem {q : List String} : q ∈ places ↔ ∃ leaf, tree.get? q = some leaf ∧ leaf.isDirectory = false :=
    (mem_walk_iff htree.sound (hwalk false)).trans (htree.listed_iff hwithin)
  refine ⟨places.map Path.ofPieces, fun lenient => filesBelow_eq_ok hfind hdirectory (hwalk lenient),
    ?_, ?_, ?_, ?_, ?_⟩
  · refine List.Nodup.of_map Path.pieces ?_
    rw [hback]
    exact hascending.nodup
  · intro name
    rw [List.mem_map]
    constructor
    · rintro ⟨q, hq, rfl⟩
      obtain ⟨leaf, hget, hleaf⟩ := hmem.1 hq
      exact ⟨q, leaf, hget, hleaf, rfl⟩
    · rintro ⟨q, leaf, hget, hleaf, rfl⟩
      exact ⟨q, hmem.2 ⟨leaf, hget, hleaf⟩, rfl⟩
  · intro q leaf hget hleaf
    exact ⟨hpieces q leaf hget hleaf, find_join_leaf hfind htree hwithin (hne q leaf hget hleaf) hget⟩
  · rw [hback]
    exact hascending
  · intro fs' path' place' tree' hreordered hfind' hwithin' lenient
    have hwalk' := (hreordered.walk_eq htree hwithin hwithin' lenient).symm.trans (hwalk lenient)
    exact filesBelow_eq_ok hfind' (hreordered.isDirectory_eq.symm.trans hdirectory) hwalk'

/-- A directory of two files, in some order. -/
def twoFiles (swapped : Bool) : FileTree :=
  let entries := [("b", .file .full (.ofBytes [2])), ("b.class", .file ⟨false, false, false⟩ (.ofBytes []))]
  .directory .full (if swapped then entries.reverse else entries)

/-- A directory, and a file on each side of it when a slash follows its name, in some order. -/
def interleaved (swapped : Bool) : FileTree :=
  let entries := [("a", twoFiles swapped), ("a-", .file .full (.ofBytes [3])), ("a.class", .file .full (.ofBytes [1]))]
  .directory .full (if swapped then entries.reverse else entries)

theorem listable_interleaved : (interleaved false).Listable := by
  have hnames : ∀ name ∈ ["a", "a-", "a.class", "b", "b.class"], IsName name ∧ '\x00' ∉ name.toList ∧ Fits name := by
    decide +kernel
  simp only [List.forall_mem_cons] at hnames
  obtain ⟨ha, hdash, hclass, hb, hbclass, -⟩ := hnames
  have hfiles : (twoFiles false).Listable := .directory rfl rfl (by decide) (by simp [hb, hbclass])
    (by simp [Listable.file])
  exact .directory rfl rfl (by decide) (by simp [ha, hdash, hclass]) (by simp [hfiles, Listable.file])

theorem reordered_interleaved : (interleaved false).Reordered (interleaved true) := by
  have hfiles : (twoFiles false).Reordered (twoFiles true) := .directory (by decide) (by simp [Reordered.file])
  exact .directory (by decide) (by simp [Reordered.file, hfiles])

theorem within_interleaved : (interleaved false).Within "in" ∧ (interleaved true).Within "/" := by
  have hlistable := reordered_interleaved.listable listable_interleaved
  have hshort : ∀ base ∈ ["in", "/"], ∀ name ∈ ["a", "a-", "a.class"],
      (Path.join base name).utf8ByteSize < Path.maxLength := by decide +kernel
  have hshorter : ∀ base ∈ ["in", "/"], ∀ name ∈ ["b", "b.class"],
      (Path.join (Path.join base "a") name).utf8ByteSize < Path.maxLength := by decide +kernel
  simp only [List.forall_mem_cons] at hshort hshorter
  have hfiles : (twoFiles false).Within (Path.join "in" "a") := by
    have hget : (interleaved false).get? ["a"] = some (twoFiles false) := rfl
    exact within_directory (listable_interleaved.of_get? hget).2.sound (by simp [within_file, hshorter])
  have hfiles' : (twoFiles true).Within (Path.join "/" "a") := by
    have hget : (interleaved true).get? ["a"] = some (twoFiles true) := rfl
    exact within_directory (hlistable.of_get? hget).2.sound (by simp [within_file, hshorter])
  exact ⟨within_directory listable_interleaved.sound (by simp [within_file, hfiles, hshort]),
    within_directory hlistable.sound (by simp [within_file, hfiles', hshort])⟩

theorem filesBelow_spec_example : ∃ names,
    (∀ lenient, (FileSystem.mk (.directory .full [("in", interleaved false)]) []).filesBelow lenient "in" =
      .ok names) ∧
    Ascending (names.map Path.pieces) ∧ "a/b" ∈ names ∧
    (FileSystem.mk (.directory .full [("in", interleaved false)]) []).find "in/a/b" =
      .ok (["in", "a", "b"], .file .full (.ofBytes [2])) ∧
    ∀ lenient, (FileSystem.mk (interleaved true) []).filesBelow lenient "/" = .ok names := by
  have hfind : (FileSystem.mk (.directory .full [("in", interleaved false)]) []).find "in" =
      .ok (["in"], interleaved false) := rfl
  obtain ⟨names, hbelow, -, hmem, hleaf, hascending, hother⟩ :=
    filesBelow_spec hfind rfl listable_interleaved within_interleaved.1
  have hget : (interleaved false).get? ["a", "b"] = some (.file .full (.ofBytes [2])) := rfl
  have hback := (hleaf _ _ hget rfl).2
  refine ⟨names, hbelow, hascending, (hmem _).2 ⟨["a", "b"], _, hget, rfl, by decide +kernel⟩, hback, ?_⟩
  exact hother _ "/" _ _ reordered_interleaved rfl within_interleaved.2

end FileSystem

end Registrar
