import Registrar.Proofs.Growth

/-!
# What lasts, and what was there before

* `FileTree.Embeds` : all that is in a tree is in another one, but for the content of files. What is listed of the first
  is listed of the second (`Listed.mono`), and what is listed of the second was listed of the first, if it was there
  (`Listed.before`);
* `Grows.lists`, `Grows.stores` : what is listed or stored lasts when a file system grows;
* `Grows.lists_before`, `yields_before`, `stores_before` : what is listed, read or stored later was so before, unless it
  was written;
* `Surroundings.Around` : only the content of the file at one place changes. `around_during` : so it is while an archive
  is written.
-/

namespace Registrar

namespace FileTree

/-! ## Trees in other trees -/

/-- What stands somewhere, but for the content of a file. -/
def kind : FileTree → Bool × Access
  | .file access _ => (false, access)
  | .directory access _ => (true, access)

theorem kind_eq_file_iff {tree : FileTree} {access : Access} :
    tree.kind = (false, access) ↔ ∃ content, tree = .file access content := by
  cases tree <;> simp [kind]

theorem kind_eq_directory_iff {tree : FileTree} {access : Access} :
    tree.kind = (true, access) ↔ ∃ entries, tree = .directory access entries := by
  cases tree <;> simp [kind]

/-- All that is in a tree is in another one as well, files perhaps with other content. -/
def Embeds (tree tree' : FileTree) : Prop :=
  ∀ q leaf, tree.get? q = some leaf → ∃ leaf', tree'.get? q = some leaf' ∧ leaf'.kind = leaf.kind

section

variable {tree tree' : FileTree} {access : Access} {room : Nat} {q : List String}

theorem Embeds.kind_eq (h : tree.Embeds tree') : tree'.kind = tree.kind := by
  obtain ⟨leaf', hleaf', hkind⟩ := h [] tree rfl
  cases hleaf'
  exact hkind

theorem Embeds.below (h : tree.Embeds tree') {p : List String} {below below' : FileTree}
    (hget : tree.get? p = some below) (hget' : tree'.get? p = some below') : below.Embeds below' := by
  intro q leaf hleaf
  have hinside := h (p ++ q) leaf
  rw [get?_append, get?_append, hget, hget', Option.bind_some, Option.bind_some] at hinside
  exact hinside hleaf

theorem get?_singleton (access : Access) (entries : List (String × FileTree)) (name : String) :
    (directory access entries).get? [name] = entries.lookup name := by
  rw [get?]
  cases entries.lookup name <;> rfl

/-- An entry of a directory has its counterpart. -/
theorem Embeds.exists_lookup {entries : List (String × FileTree)} (h : (directory access entries).Embeds tree') :
    ∃ entries', tree' = .directory access entries' ∧ ∀ name below, entries.lookup name = some below →
      ∃ below', entries'.lookup name = some below' ∧ below.Embeds below' := by
  obtain ⟨entries', rfl⟩ := kind_eq_directory_iff.1 h.kind_eq
  refine ⟨entries', rfl, fun name below hlookup => ?_⟩
  rw [← get?_singleton access] at hlookup
  obtain ⟨below', hlookup', -⟩ := h [name] below hlookup
  exact ⟨below', (get?_singleton access entries' name).symm.trans hlookup', h.below hlookup hlookup'⟩

/-- What is listed is listed of every tree with more in it. -/
theorem Listed.mono (h : Listed room tree q) (hembeds : tree.Embeds tree') : Listed room tree' q := by
  induction h generalizing tree' with
  | file =>
    obtain ⟨content', rfl⟩ := kind_eq_file_iff.1 hembeds.kind_eq
    exact .file
  | inside hread hlookup hlooks _ ih =>
    obtain ⟨entries', rfl, hentries⟩ := hembeds.exists_lookup
    obtain ⟨below', hlookup', hbelow⟩ := hentries _ _ hlookup
    exact .inside hread hlookup' hlooks (ih hbelow)
  | unseen hread hlookup hnot =>
    obtain ⟨entries', rfl, hentries⟩ := hembeds.exists_lookup
    obtain ⟨below', hlookup', -⟩ := hentries _ _ hlookup
    exact .unseen hread hlookup' hnot

/-- What is listed is a file, or nobody can look at it. -/
theorem Listed.file_or_unseen (h : Listed room tree q) : (∃ access content, tree.get? q = some (.file access content)) ∨
    ∃ front name access, q = front ++ [name] ∧ tree.nodeAt front = some (.directory access []) ∧
      (access.enter = true → Path.maxLength ≤ room + (Path.ofPieces q).utf8ByteSize) := by
  induction h with
  | file => exact .inl ⟨_, _, rfl⟩
  | @inside room access entries name tree q hread hlookup hlooks hbelow ih =>
    rcases ih with ⟨access', content, hget⟩ | ⟨front, last, access', rfl, hnode, hlong⟩
    · exact .inl ⟨access', content, by rw [get?, hlookup]; exact hget⟩
    · refine .inr ⟨name :: front, last, access', rfl, by rw [nodeAt, get?, hlookup]; exact hnode, fun henter => ?_⟩
      rw [Path.utf8ByteSize_ofPieces_cons name (by simp)]
      have hlength := hlong henter
      omega
  | @unseen room access entries name tree hread hlookup hnot =>
    refine .inr ⟨[], name, access, rfl, rfl, fun henter => ?_⟩
    rw [Path.ofPieces_singleton]
    by_contra hshort
    exact hnot ⟨henter, Nat.lt_of_not_le hshort⟩

/-- What is listed of a tree with more in it was listed before, if it was there. -/
theorem Listed.before (h : Listed room tree' q) (hembeds : tree.Embeds tree') {leaf : FileTree}
    (hget : tree.get? q = some leaf) : Listed room tree q := by
  -- a directory of the larger tree that has something below it in the smaller one is a directory there
  have hentry {access' : Access} {entries' : List (String × FileTree)} {name : String} {below' : FileTree}
      {tree : FileTree} {q : List String} (hembeds : tree.Embeds (.directory access' entries'))
      (hlookup' : entries'.lookup name = some below') (hget : tree.get? (name :: q) = some leaf) :
      ∃ entries below, tree = .directory access' entries ∧ entries.lookup name = some below ∧
        below.Embeds below' ∧ below.get? q = some leaf := by
    obtain ⟨access, entries, htree⟩ := exists_directory_of_get? (show tree.get? ([] ++ name :: q) = some leaf from hget)
    obtain rfl := Option.some.inj htree
    obtain ⟨entries'', heq, hentries⟩ := hembeds.exists_lookup
    obtain ⟨rfl, rfl⟩ := directory.inj heq
    rw [get?] at hget
    split at hget
    · next below hlookup =>
      obtain ⟨below'', hlookup'', hbelow⟩ := hentries _ _ hlookup
      obtain rfl := Option.some.inj (hlookup'.symm.trans hlookup'')
      exact ⟨entries, below, rfl, hlookup, hbelow, hget⟩
    · cases hget
  induction h generalizing tree with
  | file =>
    obtain ⟨content', rfl⟩ := kind_eq_file_iff.1 hembeds.kind_eq.symm
    exact .file
  | inside hread hlookup' hlooks _ ih =>
    obtain ⟨entries, below, rfl, hlookup, hbelow, hget⟩ := hentry hembeds hlookup' hget
    exact .inside hread hlookup hlooks (ih hbelow hget)
  | unseen hread hlookup' hnot =>
    obtain ⟨entries, below, rfl, hlookup, -, -⟩ := hentry hembeds hlookup' hget
    exact .unseen hread hlookup hnot

theorem Blocked.mono (h : Blocked room tree q) (hembeds : tree.Embeds tree') : Blocked room tree' q := by
  induction h generalizing tree' with
  | here hread =>
    obtain ⟨entries', rfl, -⟩ := hembeds.exists_lookup
    exact .here hread
  | inside hread hlookup hlooks _ ih =>
    obtain ⟨entries', rfl, hentries⟩ := hembeds.exists_lookup
    obtain ⟨below', hlookup', hbelow⟩ := hentries _ _ hlookup
    exact .inside hread hlookup' hlooks (ih hbelow)

theorem Embeds.keepsDirectories (h : tree.Embeds tree') : KeepsDirectories tree tree' := by
  intro q access hnode
  obtain ⟨entries, hget⟩ := nodeAt_eq_directory_iff.1 hnode
  obtain ⟨leaf', hget', hkind⟩ := h q _ hget
  obtain ⟨entries', rfl⟩ := kind_eq_directory_iff.1 hkind
  exact nodeAt_eq_directory_iff.2 ⟨entries', hget'⟩

end

end FileTree

namespace FileSystem

open FileTree

section

variable {written : List String → Prop} {fs fs' : FileSystem} {path name : String}

/-- A path can be used for one thing if it can be used for another one of its kind. -/
theorem Suits.of_kind {a b : FileTree} (h : Suits path a) (hkind : b.kind = a.kind) : Suits path b := by
  obtain ⟨hnames, hinside⟩ := h
  cases a <;> cases b <;> cases hkind <;> exact ⟨hnames, hinside⟩

theorem exists?_eq_true_iff : fs.exists? path = true ↔ ∃ found, fs.find path = .ok found := by
  unfold exists?
  cases fs.find path <;> simp

/-- What is listed leads down by its pieces. -/
theorem lists_iff (hsound : fs.root.Sound) : fs.Lists path name ↔ ∃ base, fs.find path = .ok base ∧
    base.2.isDirectory = true ∧ base.2.Listed (Path.room path) (Path.pieces name) := by
  constructor
  · rintro ⟨place, tree, q, hfind, hdirectory, hlisted, rfl⟩
    have hbelow := (hsound.of_get? (find_destination hfind).2).2
    refine ⟨_, hfind, hdirectory, ?_⟩
    rwa [hlisted.pieces_eq hbelow hdirectory]
  · rintro ⟨⟨place, tree⟩, hfind, hdirectory, hlisted⟩
    exact ⟨place, tree, _, hfind, hdirectory, hlisted, (Path.ofPieces_pieces name).symm⟩

theorem Lists.isDirect (hsound : fs.root.Sound) (h : fs.Lists path name) : Path.IsDirect name := by
  obtain ⟨base, hfind, -, hlisted⟩ := (lists_iff hsound).1 h
  obtain ⟨leaf, hget⟩ := hlisted.exists_get?
  exact ((hsound.of_get? (find_destination hfind).2).2.of_get? hget).1

theorem destination_join_of_isDirect (fs : FileSystem) (path : String) {entry : String} (h : Path.IsDirect entry) :
    fs.destination (Path.join path entry) = fs.destination path ++ Path.pieces entry := by
  rw [destination, Path.destination_join _ _ h.isAbsolute h.isPlain, h.steps_eq]

/-! ## What lasts -/

theorem Grows.embeds (h : Grows written fs fs') : fs.root.Embeds fs'.root := by
  intro q leaf hget
  cases leaf with
  | file access content =>
    obtain ⟨content', hnode⟩ := h.leaf (nodeAt_eq_file_iff.2 hget)
    exact ⟨_, nodeAt_eq_file_iff.1 hnode, rfl⟩
  | directory access entries =>
    obtain ⟨entries', hget'⟩ := nodeAt_eq_directory_iff.1 (h.directories q access (nodeAt_of_get? hget))
    exact ⟨_, hget', rfl⟩

theorem Grows.embeds_of_find (h : Grows written fs fs') {found found' : List String × FileTree}
    (hfind : fs.find path = .ok found) (hfind' : fs'.find path = .ok found') : found.2.Embeds found'.2 := by
  have hget' := (find_destination hfind').2
  rw [h.destination_eq] at hget'
  exact h.embeds.below (find_destination hfind).2 hget'

/-- What is listed is listed later. -/
theorem Grows.lists (h : Grows written fs fs') (hlists : fs.Lists path name) : fs'.Lists path name := by
  obtain ⟨place, tree, q, hfind, hdirectory, hlisted, rfl⟩ := hlists
  obtain ⟨tree', hfind', hdirectory', -⟩ := h.find hfind
  exact ⟨place, tree', q, hfind', hdirectory'.trans hdirectory, hlisted.mono (h.embeds_of_find hfind hfind'), rfl⟩

theorem Grows.stores (h : Grows written fs fs') {entries : Archive} (hstores : fs.Stores path entries)
    (hclear : ¬ written (fs.destination path)) : fs'.Stores path entries := by
  obtain ⟨place, access, content, hfind, hread, harchive⟩ := hstores
  obtain ⟨content', hfind', hsame⟩ := h.find_file hfind
  obtain rfl := hsame hclear
  exact ⟨place, access, content', hfind', hread, harchive⟩

/-! ## What was there before -/

/-- What is listed later was listed before, if it was there. -/
theorem Grows.lists_before (h : Grows written fs fs') (hsound : fs.root.Sound) (hlists : fs'.Lists path name)
    {found : List String × FileTree} (hfind : fs.find path = .ok found) {leaf : FileTree}
    (hget : fs.root.get? (fs.destination (Path.join path name)) = some leaf) : fs.Lists path name := by
  obtain ⟨base', hfind', hdirectory', hlisted⟩ := (lists_iff (h.sound hsound)).1 hlists
  have hembeds := h.embeds_of_find hfind hfind'
  rw [destination_join_of_isDirect fs path (hlists.isDirect (h.sound hsound)), get?_append, (find_destination hfind).2,
    Option.bind_some] at hget
  refine (lists_iff hsound).2 ⟨found, hfind, ?_, hlisted.before hembeds hget⟩
  obtain ⟨access, entries, hbase'⟩ := exists_directory hdirectory'
  obtain ⟨entries', hbase⟩ := kind_eq_directory_iff.1 (hembeds.kind_eq.symm.trans (by rw [hbase']; rfl))
  rw [hbase]
  rfl

/-- A path that led somewhere before, or goes down only, led before to what stood there, if it leads anywhere later. -/
theorem Grows.find_before (h : Grows written fs fs') {found' : List String × FileTree}
    (hfind' : fs'.find path = .ok found') (hthere : fs.exists? path = true ∨ Path.IsPlain path) {tree : FileTree}
    (hget : fs.root.get? (fs.destination path) = some tree) : ∃ place, fs.find path = .ok (place, tree) := by
  rcases hthere with hexists | hplain
  · obtain ⟨⟨place, found⟩, hfind⟩ := exists?_eq_true_iff.1 hexists
    obtain rfl := Option.some.inj ((find_destination hfind).2.symm.trans hget)
    exact ⟨place, hfind⟩
  · have hkind : tree.kind = found'.2.kind := by
      obtain ⟨leaf', hleaf', hkind⟩ := h.embeds _ _ hget
      rw [← h.destination_eq, (find_destination hfind').2] at hleaf'
      obtain rfl := Option.some.inj hleaf'
      exact hkind.symm
    obtain ⟨hcheck, hfits, hpass, -, hplace, hsuits⟩ := (find_eq_ok_iff hplain).1 hfind'
    have hdestination : fs.destination path = fs.place path := Path.foldl_go hplain _
    rw [hdestination] at hget
    rw [h.start_eq] at hpass
    rw [h.place_eq] at hplace
    have hbefore := hpass.before h.directories (by
      rw [← place_eq, nodeAt_of_get? hget]
      exact Option.some_ne_none _)
    exact ⟨_, (find_eq_ok_iff hplain).2 ⟨hcheck, hfits, hbefore, hget, hplace, hsuits.of_kind hkind⟩⟩

/-- Whatever can be listed later could be listed before. -/
theorem Grows.unblocked_before (h : Grows written fs fs') (hunblocked : fs'.Unblocked path) : fs.Unblocked path := by
  intro place tree hfind q hblocked
  obtain ⟨tree', hfind', -⟩ := h.find hfind
  exact hunblocked _ _ hfind' q (hblocked.mono (h.embeds_of_find hfind hfind'))

/-- What is listed later was listed before, if nothing was written below the directory, and what was made there has a
path that is short enough. -/
theorem Grows.lists_before_of_clear (h : Grows written fs fs') (hsound : fs.root.Sound) (hlists : fs'.Lists path name)
    (hthere : fs.exists? path = true ∨ Path.IsPlain path)
    (hclear : ∀ q, ¬ written (fs.destination path ++ q))
    (hshort : ∀ q, q ≠ [] → fs.root.nodeAt (fs.destination path ++ q) = none →
      fs'.root.nodeAt (fs.destination path ++ q) ≠ none →
      (Path.join path (Path.ofPieces q)).utf8ByteSize < Path.maxLength) : fs.Lists path name := by
  have hdirect := hlists.isDirect (h.sound hsound)
  obtain ⟨base', hfind', hdirectory', hlisted⟩ := (lists_iff (h.sound hsound)).1 hlists
  have hplace' : base'.1 = fs.destination path := (find_destination hfind').1.trans (h.destination_eq path)
  have hold : fs.root.nodeAt (fs.destination path ++ Path.pieces name) ≠ none := by
    intro hnone
    have hnew : fs'.root.nodeAt (fs.destination path ++ Path.pieces name) ≠ none := by
      obtain ⟨leaf, hleaf⟩ := hlisted.exists_get?
      rw [← hplace', nodeAt_append hfind', nodeAt_of_get? hleaf]
      exact Option.some_ne_none _
    have hfits := hshort _ (Path.IsDirect.pieces_ne_nil name) hnone hnew
    rw [Path.ofPieces_pieces, Path.utf8ByteSize_join path hdirect.isAbsolute] at hfits
    rcases hlisted.file_or_unseen with ⟨access, content, hget⟩ | ⟨front, last, access, hpieces, hnode, hlong⟩
    · -- a file that was not there was written
      have hfile : fs'.root.nodeAt (fs.destination path ++ Path.pieces name) = some (.file access content) := by
        rw [← hplace', nodeAt_append hfind', nodeAt_of_get? hget]
        rfl
      rcases h.node (fs.destination path ++ Path.pieces name) with hsame | ⟨-, hmade⟩ | ⟨hwritten, -⟩
      · rw [hsame, hnone] at hfile
        cases hfile
      · rw [hmade] at hfile
        cases hfile
      · exact hclear _ hwritten
    · -- something was made in the directory, so it can be entered
      rw [hpieces, ← List.append_assoc] at hnone hnew
      obtain ⟨access', hnode', henter, -⟩ := h.grown _ _ hnone hnew
      rw [← hplace', nodeAt_append hfind', hnode] at hnode'
      cases hnode'
      have hlength := hlong henter
      rw [Path.ofPieces_pieces] at hlength
      omega
  obtain ⟨leaf, hleaf⟩ := Option.ne_none_iff_exists'.1 hold
  obtain ⟨tree, hget, -⟩ := nodeAt_eq_some_iff.1 hleaf
  obtain ⟨base, hbase⟩ : ∃ base, fs.root.get? (fs.destination path) = some base := by
    rw [get?_append, Option.bind_eq_some_iff] at hget
    obtain ⟨base, hbase, -⟩ := hget
    exact ⟨base, hbase⟩
  obtain ⟨place, hfind⟩ := h.find_before hfind' hthere hbase
  rw [← destination_join_of_isDirect fs path hdirect] at hget
  exact h.lists_before hsound hlists hfind hget

/-- A file that is found later was there before, unless it was written. -/
theorem Grows.find_file_before (h : Grows written fs fs') {place' : List String} {access : Access} {content : File}
    (hfind' : fs'.find path = .ok (place', .file access content))
    (hthere : fs.exists? path = true ∨ Path.IsPlain path) (hclear : ¬ written (fs.destination path)) :
    ∃ place, fs.find path = .ok (place, .file access content) := by
  have hget' := (find_destination hfind').2
  rw [h.destination_eq] at hget'
  have hnode := h.leaf_of_not_written (nodeAt_of_get? hget') rfl hclear
  exact h.find_before hfind' hthere (nodeAt_eq_file_iff.1 hnode)

theorem Grows.yields_before (h : Grows written fs fs') {data : List UInt8} (hyields : fs'.Yields path data)
    (hthere : fs.exists? path = true ∨ Path.IsPlain path) (hclear : ¬ written (fs.destination path)) :
    fs.Yields path data := by
  obtain ⟨place', access, content, hfind', haccess, hdata⟩ := hyields
  obtain ⟨place, hfind⟩ := h.find_file_before hfind' hthere hclear
  exact ⟨place, access, content, hfind, haccess, hdata⟩

theorem Grows.stores_before (h : Grows written fs fs') {entries : Archive} (hstores : fs'.Stores path entries)
    (hthere : fs.exists? path = true ∨ Path.IsPlain path) (hclear : ¬ written (fs.destination path)) :
    fs.Stores path entries := by
  obtain ⟨place', access, content, hfind', haccess, harchive⟩ := hstores
  obtain ⟨place, hfind⟩ := h.find_file_before hfind' hthere hclear
  exact ⟨place, access, content, hfind, haccess, harchive⟩

/-- A file below a directory that was there is the file that was there before, unless it was written. -/
theorem Grows.find_join_before (h : Grows written fs fs') {found : List String × FileTree}
    (hfind : fs.find path = .ok found) (hname : Path.IsDirect name) {place' : List String} {access : Access}
    {content : File} (hfind' : fs'.find (Path.join path name) = .ok (place', .file access content))
    (hclear : ¬ written (fs.destination (Path.join path name))) :
    ∃ place, fs.find (Path.join path name) = .ok (place, .file access content) := by
  obtain ⟨tree', hbase', -⟩ := h.find hfind
  obtain ⟨hcheck, hfits, hpass, -, -, hsuits⟩ :=
    (find_join_eq_ok_iff hbase' hname.isAbsolute hname.isPlain).1 hfind'
  have hget' := (find_destination hfind').2
  rw [h.destination_eq] at hget'
  have hget := nodeAt_eq_file_iff.1 (h.leaf_of_not_written (nodeAt_of_get? hget') rfl hclear)
  rw [destination_join_of_isDirect fs path hname, get?_append, (find_destination hfind).2, Option.bind_some,
    ← hname.steps_eq] at hget
  have hbefore := hpass.before (h.embeds_of_find hfind hbase').keepsDirectories (by
    rw [List.nil_append, nodeAt_of_get? hget]
    exact Option.some_ne_none _)
  exact ⟨_, (find_join_eq_ok_iff hfind hname.isAbsolute hname.isPlain).2
    ⟨hcheck, hfits, hbefore, hget, rfl, hsuits⟩⟩

theorem Grows.yields_join_before (h : Grows written fs fs') {found : List String × FileTree}
    (hfind : fs.find path = .ok found) (hname : Path.IsDirect name) {data : List UInt8}
    (hyields : fs'.Yields (Path.join path name) data) (hclear : ¬ written (fs.destination (Path.join path name))) :
    fs.Yields (Path.join path name) data := by
  obtain ⟨place', access, content, hfind', haccess, hdata⟩ := hyields
  obtain ⟨place, hbefore⟩ := h.find_join_before hfind hname hfind' hclear
  exact ⟨place, access, content, hbefore, haccess, hdata⟩

/-! ## While a file is rewritten -/

/-- A file that was there is there when it is rewritten, and nothing else changes. -/
theorem grows_of_rewritten (hsound : fs.root.Sound) (hfile : fs.isFile path = true) (content : File) :
    Grows (· = fs.destination path) (fs.rewritten path content) fs := by
  unfold rewritten
  cases hwrite : write path content fs with
  | error fault fs' =>
    obtain rfl := write_eq_error hwrite
    exact .refl
  | ok u fs' =>
    obtain ⟨front, last, above, access, hwritable, rfl⟩ := write_eq_ok hwrite
    have hplace := hwritable.destination_eq
    have hold : ∃ old, fs.root.nodeAt (above ++ [last]) = some (.file access old) := by
      refine (hwritable.own.resolve_left ?_).2
      rintro ⟨hnone, -⟩
      obtain ⟨place, access', old, hfind⟩ := isFile_eq_true_iff.1 hfile
      rw [← hplace, nodeAt_of_get? (find_destination hfind).2] at hnone
      cases hnone
    have hnode := nodeAt_withNode (n := .file access content) rfl hwritable.takes
    rw [hplace]
    refine ⟨⟨rfl, fun q access' hdirectory => ?_, fun q name hnone hsome => ?_⟩, fun q => ?_, fun _ => hsound⟩
    · rw [hnode] at hdirectory
      split at hdirectory
      · cases hdirectory
      · exact hdirectory
    · rw [hnode] at hnone
      split at hnone
      · cases hnone
      · exact absurd hnone hsome
    · rw [hnode]
      by_cases hq : q = above ++ [last]
      · obtain ⟨old, hold⟩ := hold
        rw [if_pos hq, hq]
        exact .inr (.inr ⟨rfl, access, old, hold, .inr ⟨content, rfl⟩⟩)
      · rw [if_neg hq]
        exact .inl rfl

end

end FileSystem

/-! ## While an archive is written -/

open FileSystem (Grows)

/-- The surroundings are a file system in which nothing changes but the content of the file at a place. -/
structure Surroundings.Around (during : Surroundings) (fs : FileSystem) (place : List String) : Prop where
  sound : fs.root.Sound
  grows (opened now : Archive) : Grows (· = place) fs (during opened now)
  back (opened now : Archive) : Grows (· = place) (during opened now) fs

namespace Surroundings.Around

variable {during : Surroundings} {fs : FileSystem} {place : List String} {path : String}

theorem listing_iff (h : during.Around fs place) (opened now : Archive) {names : List String} :
    (during opened now).Listing path names ↔ fs.Listing path names := by
  have hlists (name : String) : (during opened now).Lists path name ↔ fs.Lists path name :=
    ⟨(h.back opened now).lists, (h.grows opened now).lists⟩
  constructor
  · rintro ⟨hascending, hmem⟩
    exact ⟨hascending, fun name => (hmem name).trans (hlists name)⟩
  · rintro ⟨hascending, hmem⟩
    exact ⟨hascending, fun name => (hmem name).trans (hlists name).symm⟩

theorem unblocked_iff (h : during.Around fs place) (opened now : Archive) :
    (during opened now).Unblocked path ↔ fs.Unblocked path :=
  ⟨(h.grows opened now).unblocked_before, (h.back opened now).unblocked_before⟩

theorem destination_eq (h : during.Around fs place) (opened now : Archive) :
    (during opened now).destination path = fs.destination path := (h.grows opened now).destination_eq path

theorem yields_iff (h : during.Around fs place) (opened now : Archive) (hclear : fs.destination path ≠ place)
    {data : List UInt8} : (during opened now).Yields path data ↔ fs.Yields path data := by
  constructor
  · intro hyields
    obtain ⟨data', hyields', hsame⟩ := (h.back opened now).yields hyields
    rw [← hsame (by rwa [h.destination_eq opened now])]
    exact hyields'
  · intro hyields
    obtain ⟨data', hyields', hsame⟩ := (h.grows opened now).yields hyields
    rw [← hsame hclear]
    exact hyields'

theorem stores_iff (h : during.Around fs place) (opened now : Archive) (hclear : fs.destination path ≠ place)
    {entries : Archive} : (during opened now).Stores path entries ↔ fs.Stores path entries :=
  ⟨fun hstores => (h.back opened now).stores hstores (by rwa [h.destination_eq opened now]),
    fun hstores => (h.grows opened now).stores hstores hclear⟩

/-- A directory that can be listed can be listed meanwhile. -/
theorem filesBelow (h : during.Around fs place) (opened now : Archive) {names : List String}
    (hnames : fs.filesBelow false path = .ok names) : (during opened now).filesBelow false path = .ok names := by
  have hsound := (h.grows opened now).sound h.sound
  obtain ⟨found, places, hfind, hdirectory, hwalk, -⟩ := FileSystem.filesBelow_eq_ok_iff.1 hnames
  obtain ⟨tree', hfind', hdirectory', -⟩ := (h.grows opened now).find hfind
  have hbelow := (hsound.of_get? (FileSystem.find_destination hfind').2).2
  obtain ⟨places', hwalk'⟩ := FileTree.exists_walk hbelow fun q hblocked =>
    FileTree.not_blocked_of_walk hwalk q (hblocked.mono ((h.back opened now).embeds_of_find hfind' hfind))
  have hnames' := FileSystem.filesBelow_eq_ok_iff.2 ⟨_, places', hfind', hdirectory'.trans hdirectory, hwalk', rfl⟩
  have hlisting := (h.listing_iff opened now).2 (FileSystem.listing_of_filesBelow h.sound hnames)
  rw [hnames', (FileSystem.listing_of_filesBelow hsound hnames').unique hlisting]

theorem isDirectory_eq (h : during.Around fs place) (opened now : Archive) :
    (during opened now).isDirectory path = fs.isDirectory path := by
  have himp {written : List String → Prop} {a b : FileSystem} (hgrows : Grows written a b)
      (ha : a.isDirectory path = true) : b.isDirectory path = true := by
    obtain ⟨found, hfind, hdirectory⟩ := FileSystem.isDirectory_eq_true_iff.1 ha
    obtain ⟨tree', hfind', hdirectory', -⟩ := hgrows.find hfind
    exact FileSystem.isDirectory_eq_true_iff.2 ⟨_, hfind', hdirectory'.trans hdirectory⟩
  rw [Bool.eq_iff_iff]
  exact ⟨himp (h.back opened now), himp (h.grows opened now)⟩

end Surroundings.Around

theorem FileSystem.createFile_eq_ok {path : String} {content : File} {fs fs' : FileSystem} {u : Unit}
    (h : createFile path content fs = .ok u fs') : write path content fs = .ok u fs' := by
  unfold createFile EStateM.adaptExcept at h
  split at h
  · cases h
  · next hwrite =>
    cases h
    exact hwrite

theorem write_of_beginArchive {output : String} {fs fs₁ : FileSystem} {u : Unit}
    (h : beginArchive output fs = .ok u fs₁) : ∃ fs₀, FileSystem.write output (.ofBytes []) fs₀ = .ok u fs₁ := by
  unfold beginArchive at h
  cases habove : Path.parent? output with
  | some above =>
    rw [habove] at h
    obtain ⟨_, fs₀, -, h⟩ := EStateM.bind_eq_ok_iff.1 h
    exact ⟨fs₀, FileSystem.createFile_eq_ok h⟩
  | none =>
    rw [habove] at h
    exact ⟨fs, FileSystem.createFile_eq_ok h⟩

/-- While an archive is written that was begun, nothing changes but the content of its file. -/
theorem around_during {output : String} {fs fs₁ : FileSystem} {u : Unit} (hsound : fs.root.Sound)
    (hbegin : beginArchive output fs = .ok u fs₁) (unfinished : Unfinished) :
    (fs₁.during output unfinished).Around fs₁ (fs₁.destination output) := by
  have hsound₁ := (FileSystem.grows_beginArchive hbegin).sound hsound
  obtain ⟨fs₀, hwrite⟩ := write_of_beginArchive hbegin
  obtain ⟨access, hfind⟩ := FileSystem.find_of_write hwrite
  have hfile : fs₁.isFile output = true := FileSystem.isFile_eq_true_iff.2 ⟨_, access, _, hfind⟩
  exact ⟨hsound₁, fun opened now => FileSystem.grows_rewritten _ rfl,
    fun opened now => FileSystem.grows_of_rewritten hsound₁ hfile _⟩

end Registrar
