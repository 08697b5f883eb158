import Registrar.Assembly
import Registrar.Proofs.Walks

/-!
# File systems that grow

* `Grows written fs fs'` : there are more directories in `fs'` than in `fs`, and new files at the places of `written`
  only. `Grows.refl`, `Grows.trans`;
* `Grows.leaf`, `Grows.leaf_of_not_written` : what stays, and what was there before;
* `Grows.find`, `Grows.yields` : what a path leads to stays there, and holds the same if it was not written;
* `grows_makeAlong`, `grows_createAbove`, `grows_writeData`, `grows_beginArchive`, `grows_rewritten` : whatever is done
  grows, also when it fails.
-/

namespace Registrar

namespace FileSystem

open FileTree

/-- What becomes of a file system while directories are made, and files are written at some places. -/
structure Grows (written : List String → Prop) (fs fs' : FileSystem) : Prop extends Extends fs fs' where
  node (q : List String) : fs'.root.nodeAt q = fs.root.nodeAt q ∨
    fs.root.nodeAt q = none ∧ fs'.root.nodeAt q = some (.directory .full []) ∨
    written q ∧ ∃ access content, fs'.root.nodeAt q = some (.file access content) ∧
      (fs.root.nodeAt q = none ∨ ∃ old, fs.root.nodeAt q = some (.file access old))
  sound : fs.root.Sound → fs'.root.Sound

section

variable {written written' : List String → Prop} {fs fs' fs'' : FileSystem}

theorem Grows.refl : Grows written fs fs := ⟨.refl, fun _ => .inl rfl, id⟩

theorem Grows.trans (h : Grows written fs fs') (h' : Grows written fs' fs'') : Grows written fs fs'' := by
  refine ⟨h.toExtends.trans h'.toExtends, fun q => ?_, fun hsound => h'.sound (h.sound hsound)⟩
  rcases h'.node q with heq' | ⟨hnone', hmade'⟩ | ⟨hwritten, access, content, hafter', hbefore'⟩
  · rw [heq']
    exact h.node q
  · rcases h.node q with heq | ⟨-, hmade⟩ | ⟨-, _, _, hafter, -⟩
    · exact .inr (.inl ⟨heq ▸ hnone', hmade'⟩)
    · rw [hmade] at hnone'
      cases hnone'
    · rw [hafter] at hnone'
      cases hnone'
  · rcases h.node q with heq | ⟨-, hmade⟩ | ⟨-, access', _, hafter, hbefore⟩
    · exact .inr (.inr ⟨hwritten, access, content, hafter', heq ▸ hbefore'⟩)
    · rcases hbefore' with hnone | ⟨old, hold⟩
      · rw [hmade] at hnone
        cases hnone
      · rw [hmade] at hold
        cases hold
    · rcases hbefore' with hnone | ⟨old, hold⟩
      · rw [hafter] at hnone
        cases hnone
      · obtain ⟨rfl, -⟩ := file.inj (Option.some.inj (hafter.symm.trans hold))
        exact .inr (.inr ⟨hwritten, access', content, hafter', hbefore⟩)

theorem Grows.mono (h : Grows written fs fs') (himp : ∀ q, written q → written' q) : Grows written' fs fs' :=
  ⟨h.toExtends, fun q => (h.node q).imp id (.imp id fun ⟨hwritten, hrest⟩ => ⟨himp q hwritten, hrest⟩), h.sound⟩

theorem Extends.destination_eq (h : Extends fs fs') (path : String) : fs'.destination path = fs.destination path :=
  congrArg (Path.destination · path) h.workingDirectory

theorem Grows.directory (h : Grows written fs fs') {q : List String} {n : FileTree} (hn : fs.root.nodeAt q = some n)
    (hdirectory : n.isDirectory = true) : fs'.root.nodeAt q = some n := by
  obtain ⟨access, entries, rfl⟩ := exists_directory hdirectory
  obtain rfl := entries_eq_nil_of_nodeAt hn
  exact h.directories q access hn

/-- Where there was a file, there is one later, with the same access. -/
theorem Grows.leaf (h : Grows written fs fs') {q : List String} {access : Access} {content : File}
    (hn : fs.root.nodeAt q = some (.file access content)) :
    ∃ content', fs'.root.nodeAt q = some (.file access content') := by
  rcases h.node q with heq | ⟨hnone, -⟩ | ⟨-, access', content', hafter, hnone | ⟨old, hold⟩⟩
  · exact ⟨content, heq.trans hn⟩
  · rw [hn] at hnone
    cases hnone
  · rw [hn] at hnone
    cases hnone
  · obtain ⟨rfl, -⟩ := file.inj (Option.some.inj (hn.symm.trans hold))
    exact ⟨content', hafter⟩

/-- A file that was not written was there before. -/
theorem Grows.leaf_of_not_written (h : Grows written fs fs') {q : List String} {n : FileTree}
    (hn : fs'.root.nodeAt q = some n) (hleaf : n.isDirectory = false) (hq : ¬ written q) :
    fs.root.nodeAt q = some n := by
  rcases h.node q with heq | ⟨-, hmade⟩ | ⟨hwritten, -⟩
  · rw [← heq, hn]
  · rw [hn] at hmade
    cases hmade
    cases hleaf
  · exact absurd hwritten hq

/-- What stands somewhere is still there. -/
theorem Grows.exists_node (h : Grows written fs fs') {q : List String} {n : FileTree} (hn : fs.root.nodeAt q = some n) :
    ∃ n', fs'.root.nodeAt q = some n' ∧ n'.isDirectory = n.isDirectory ∧ n'.canEnter = n.canEnter ∧
      (¬ written q → n' = n) := by
  cases n with
  | directory access entries => exact ⟨_, h.directory hn rfl, rfl, rfl, fun _ => rfl⟩
  | file access content =>
    obtain ⟨content', hn'⟩ := h.leaf hn
    refine ⟨_, hn', rfl, rfl, fun hq => ?_⟩
    exact Option.some.inj ((h.leaf_of_not_written hn' rfl hq).symm.trans hn)

/-- What a path leads to stays there, a directory or none as it was. -/
theorem Grows.find (h : Grows written fs fs') {path : String} {found : List String × FileTree}
    (hfind : fs.find path = .ok found) : ∃ tree', fs'.find path = .ok (found.1, tree') ∧
      tree'.isDirectory = found.2.isDirectory ∧ (¬ written (fs.destination path) → tree'.node = found.2.node) := by
  obtain ⟨hcheck, hfollow, hsuits⟩ := find_eq_ok_iff_follow.1 hfind
  obtain ⟨n', hn', hdirectory, henter, hsame⟩ := h.exists_node (nodeAt_of_get? (follow_eq_ok hfollow).2)
  obtain ⟨tree', htree', rfl⟩ := nodeAt_eq_some_iff.1 hn'
  rw [isDirectory_node, isDirectory_node] at hdirectory
  rw [canEnter_node, canEnter_node] at henter
  refine ⟨tree', find_eq_ok_iff_follow.2 ⟨hcheck, ?_, fun hnames => hdirectory.trans (hsuits.names hnames),
    fun hinside => henter.trans (hsuits.inside hinside)⟩, hdirectory, ?_⟩
  · rw [h.start_eq]
    exact follow_mono h.directories hfollow htree'
  · rw [← (find_destination hfind).1]
    exact hsame

theorem file_eq_ok_iff {path : String} {content : File} :
    fs.file path = .ok content ↔
      ∃ place access, fs.find path = .ok (place, .file access content) ∧ access.read = true := by
  unfold file
  constructor
  · intro h
    split at h
    · next place access content' hfind =>
      split at h
      · next hread =>
        cases h
        exact ⟨place, access, hfind, hread⟩
      · cases h
    · cases h
    · cases h
  · rintro ⟨place, access, hfind, hread⟩
    simp only [hfind, hread, if_true]

theorem isFile_eq_true_iff {path : String} :
    fs.isFile path = true ↔ ∃ place access content, fs.find path = .ok (place, .file access content) := by
  unfold isFile
  constructor
  · intro h
    split at h
    · next place tree hfind =>
      cases tree with
      | file access content => exact ⟨place, access, content, hfind⟩
      | directory access entries => cases h
    · cases h
  · rintro ⟨place, access, content, hfind⟩
    rw [hfind]
    rfl

theorem exists_of_isFile {path : String} (h : fs.isFile path = true) : fs.exists? path = true := by
  obtain ⟨place, access, content, hfind⟩ := isFile_eq_true_iff.1 h
  rw [exists?, hfind]

/-- A path leads to a file that can be read and holds some bytes. -/
def Yields (fs : FileSystem) (path : String) (data : List UInt8) : Prop :=
  ∃ place access content, fs.find path = .ok (place, .file access content) ∧ access.read = true ∧ content.data = data

theorem readFile_eq_ok_iff {path : String} {data : List UInt8} : fs.readFile path = .ok data ↔ fs.Yields path data := by
  rw [readFile, Except.mapError_eq_ok_iff, read, Except.map_eq_ok_iff]
  simp only [file_eq_ok_iff]
  constructor
  · rintro ⟨content, ⟨place, access, hfind, hread⟩, hdata⟩
    exact ⟨place, access, content, hfind, hread, hdata⟩
  · rintro ⟨place, access, content, hfind, hread, hdata⟩
    exact ⟨content, ⟨place, access, hfind, hread⟩, hdata⟩

/-- A path leads to a file that can be read and is an archive with some entries. -/
def Stores (fs : FileSystem) (path : String) (entries : Archive) : Prop :=
  ∃ place access content, fs.find path = .ok (place, .file access content) ∧ access.read = true ∧
    content.archive = some entries

theorem openArchive_eq_ok_iff {path : String} {entries : Archive} :
    fs.openArchive path = .ok entries ↔ fs.Stores path entries := by
  unfold openArchive Stores
  constructor
  · intro h
    split at h
    · next place access content hfind =>
      split at h
      · next hread =>
        split at h
        · next harchive =>
          cases h
          exact ⟨place, access, content, hfind, hread, harchive⟩
        · cases h
      · cases h
    · cases h
    · cases h
  · rintro ⟨place, access, content, hfind, hread, harchive⟩
    simp only [hfind, hread, harchive, if_true]

theorem Yields.unique {path : String} {data data' : List UInt8} (h : fs.Yields path data) (h' : fs.Yields path data') :
    data = data' :=
  Except.ok.inj ((readFile_eq_ok_iff.2 h).symm.trans (readFile_eq_ok_iff.2 h'))

theorem Stores.unique {path : String} {entries entries' : Archive} (h : fs.Stores path entries)
    (h' : fs.Stores path entries') : entries = entries' :=
  Except.ok.inj ((openArchive_eq_ok_iff.2 h).symm.trans (openArchive_eq_ok_iff.2 h'))

/-- A file that is found is found later, and is the same unless it was written. -/
theorem Grows.find_file (h : Grows written fs fs') {path : String} {place : List String} {access : Access}
    {content : File} (hfind : fs.find path = .ok (place, .file access content)) :
    ∃ content', fs'.find path = .ok (place, .file access content') ∧
      (¬ written (fs.destination path) → content' = content) := by
  obtain ⟨tree', hfind', hdirectory, hsame⟩ := h.find hfind
  obtain ⟨-, hget⟩ := find_destination hfind
  have hget' := (find_destination hfind').2
  rw [h.destination_eq] at hget'
  obtain ⟨content', hnode'⟩ := h.leaf (nodeAt_of_get? hget)
  obtain rfl := Option.some.inj (hget'.symm.trans (nodeAt_eq_file_iff.1 hnode'))
  exact ⟨content', hfind', fun hq => (file.inj (hsame hq)).2⟩

theorem Grows.isFile (h : Grows written fs fs') {path : String} (hfile : fs.isFile path = true) :
    fs'.isFile path = true := by
  obtain ⟨place, access, content, hfind⟩ := isFile_eq_true_iff.1 hfile
  obtain ⟨content', hfind', -⟩ := h.find_file hfind
  exact isFile_eq_true_iff.2 ⟨place, access, content', hfind'⟩

/-- A file that can be read can be read later, and holds the same unless it was written. -/
theorem Grows.yields (h : Grows written fs fs') {path : String} {data : List UInt8} (hyields : fs.Yields path data) :
    ∃ data', fs'.Yields path data' ∧ (¬ written (fs.destination path) → data' = data) := by
  obtain ⟨place, access, content, hfind, haccess, hdata⟩ := hyields
  obtain ⟨content', hfind', hsame⟩ := h.find_file hfind
  exact ⟨content'.data, ⟨place, access, content', hfind', haccess, rfl⟩, fun hq => by rw [hsame hq, hdata]⟩

/-! ## What is done grows -/

variable {place : List String} {name : String}

theorem grows_withNode {n : FileTree} (hn : n.node = n) (hsound : n.Sound) (htakes : fs.Takes place name)
    (hname : IsName name) (hplace : fs.root.nodeAt (place ++ [name]) = none ∧ n = .directory .full [] ∨
      written (place ++ [name]) ∧ ∃ access content, n = .file access content ∧
        (fs.root.nodeAt (place ++ [name]) = none ∨ ∃ old, fs.root.nodeAt (place ++ [name]) = some (.file access old))) :
    Grows written fs (fs.withNode n (place ++ [name])) := by
  refine ⟨extends_withNode hn htakes, fun q => ?_, fun hroot => ?_⟩
  · rw [nodeAt_withNode hn htakes]
    by_cases hq : q = place ++ [name]
    · rw [if_pos hq, hq]
      rcases hplace with ⟨hnone, rfl⟩ | ⟨hwritten, access, content, rfl, hbefore⟩
      · exact .inr (.inl ⟨hnone, rfl⟩)
      · exact .inr (.inr ⟨hwritten, access, content, rfl, hbefore⟩)
    · rw [if_neg hq]
      exact .inl rfl
  · obtain ⟨access, hroom⟩ := htakes.hasDirectory
    obtain ⟨tree, htree, -⟩ := nodeAt_eq_some_iff.1 hroom
    refine hsound.put hroot fun step hstep => ?_
    rcases List.mem_append.1 hstep with hstep | hstep
    · exact (hroot.of_get? htree).1 step hstep
    · rw [List.mem_singleton.1 hstep]
      exact hname

theorem grows_makeAlong {steps : List String} (hsteps : ∀ step ∈ steps, step ≠ ".." → IsName step) :
    Grows written fs (after (makeAlong place steps fs)) := by
  induction steps generalizing place fs with
  | nil => exact .refl
  | cons step steps ih =>
    rw [List.forall_mem_cons] at hsteps
    rcases makeAlong_cases place step steps fs with ⟨fault, h⟩ | ⟨-, h⟩ | ⟨-, -, h⟩ | ⟨hdown, hnone, -, htakes, h⟩
    · rw [h]
      exact .refl
    · rw [h]
      exact ih hsteps.2
    · rw [h]
      exact ih hsteps.2
    · rw [h]
      exact (grows_withNode rfl (sound_empty .full) htakes (hsteps.1 hdown) (.inl ⟨hnone, rfl⟩)).trans (ih hsteps.2)

variable {path : String}

theorem grows_createDirectories : Grows written fs (after (createDirectories path fs)) := by
  rw [createDirectories, after_adaptExcept, makeDirectories]
  split
  · exact .refl
  · split
    · exact .refl
    · exact grows_makeAlong fun step hstep hdown => Path.isName_of_mem_steps hstep hdown

theorem grows_createAbove : Grows written fs (after (createAbove path fs)) := by
  unfold createAbove
  cases Path.parent? path with
  | some above => exact grows_createDirectories
  | none => exact .refl

theorem grows_write {content : File} (hwritten : written (fs.destination path)) :
    Grows written fs (after (write path content fs)) := by
  cases hwrite : write path content fs with
  | error fault fs' =>
    obtain rfl := write_eq_error hwrite
    exact .refl
  | ok u fs' =>
    obtain ⟨front, name, above, access, hwritable, rfl⟩ := write_eq_ok hwrite
    have hstep : name ∈ Path.steps path := by
      rw [hwritable.steps]
      exact List.mem_append_right _ (List.mem_singleton_self _)
    have hname := Path.isName_of_mem_steps hstep hwritable.down
    rw [hwritable.destination_eq] at hwritten
    refine grows_withNode rfl (.file _ _) hwritable.takes hname (.inr ⟨hwritten, access, content, rfl, ?_⟩)
    exact hwritable.own.imp (fun hown => hown.1) fun hown => hown.2

theorem grows_writeData {data : List UInt8} (hwritten : written (fs.destination path)) :
    Grows written fs (after (writeData path data fs)) := by
  rw [writeData, after_adaptExcept]
  exact grows_write hwritten

theorem grows_rewritten (content : File) (hwritten : written (fs.destination path)) :
    Grows written fs (fs.rewritten path content) := by
  have hgrows : Grows written fs (after (write path content fs)) := grows_write hwritten
  unfold rewritten
  cases hwrite : write path content fs <;> rw [hwrite] at hgrows <;> exact hgrows

theorem grows_beginArchive {output : String} {u : Unit} (h : beginArchive output fs = .ok u fs') :
    Grows (· = fs.destination output) fs fs' := by
  have hcreate {fs₀ : FileSystem} (hfs₀ : createFile output (.ofBytes []) fs₀ = .ok u fs')
      (hdestination : fs₀.destination output = fs.destination output) : Grows (· = fs.destination output) fs₀ fs' := by
    have hgrows : Grows (· = fs.destination output) fs₀ (after (createFile output (.ofBytes []) fs₀)) := by
      rw [createFile, after_adaptExcept]
      exact grows_write hdestination
    rwa [hfs₀] at hgrows
  unfold beginArchive at h
  cases habove : Path.parent? output with
  | none =>
    rw [habove] at h
    exact hcreate h rfl
  | some above =>
    rw [habove] at h
    obtain ⟨_, fs₀, hmake, h⟩ := EStateM.bind_eq_ok_iff.1 h
    have hgrows : Grows (· = fs.destination output) fs (after (createDirectories above fs)) := grows_createDirectories
    rw [hmake] at hgrows
    exact hgrows.trans (hcreate h (hgrows.destination_eq output))

end

end FileSystem

end Registrar
