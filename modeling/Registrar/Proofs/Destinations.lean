import Registrar.Proofs.Interference

/-!
# Where paths lead

Paths that may go up as well as down.

* `Path.destination` : the place to which a path leads, whatever stands there. For paths that go down only it is
  `Path.place`;
* `FileSystem.find_destination` : what is found by a path stands at its destination;
* `find_of_write`, `exists_find_of_write`, `exists_write_of_write` : what was written is found, what was there before is
  still there, and the file can be written again.
-/

namespace Registrar

namespace Path

/-- The place to which a path leads, if relative paths start in a directory. -/
def destination (directory : List String) (path : String) : List String :=
  (steps path).foldl go (if isAbsolute path then [] else directory)

theorem destination_join (directory : List String) (base : String) {path : String} (hpath : isAbsolute path = false)
    (hplain : ".." ∉ steps path) : destination directory (join base path) = destination directory base ++ steps path := by
  rw [destination, destination, isAbsolute_join base hpath, steps_join base hpath, List.foldl_append, foldl_go hplain]

theorem destination_scratchPath (directory : List String) (work : String) {entry : String} (hplain : IsPlain entry) :
    destination directory (scratchPath work entry) = destination directory (join work "classes") ++ steps entry := by
  obtain ⟨hsteps, habsolute⟩ := scratchPath_steps work entry
  have hclasses : isAbsolute "classes" = false := by decide
  rw [destination, destination, hsteps, habsolute, isAbsolute_join work hclasses, steps_join work hclasses,
    List.foldl_append, foldl_go hplain]
  rfl

end Path

namespace FileSystem

open FileTree

/-- The place to which a path leads. -/
abbrev destination (fs : FileSystem) (path : String) : List String := Path.destination fs.workingDirectory path

/-! ## Finding -/

theorem find_destination {fs : FileSystem} {path : String} {found : List String × FileTree}
    (h : fs.find path = .ok found) :
    found.1 = fs.destination path ∧ fs.root.get? (fs.destination path) = some found.2 := by
  obtain ⟨-, hfollow, -⟩ := find_eq_ok_iff_follow.1 h
  obtain ⟨hplace, hget⟩ := follow_eq_ok hfollow
  have hdestination : found.1 = fs.destination path := hplace
  rw [hdestination] at hget
  exact ⟨hdestination, hget⟩

/-! ## Writing -/

section

variable {fs fs' : FileSystem} {path name : String} {front above : List String} {access : Access}

theorem Writable.destination_eq (h : fs.Writable path front name above access) :
    fs.destination path = above ++ [name] := by
  obtain ⟨tree, hfollow⟩ := h.follow
  obtain ⟨habove, -⟩ := follow_eq_ok hfollow
  have hstart : (if Path.isAbsolute path then [] else fs.workingDirectory) = fs.start path := rfl
  rw [destination, Path.destination, h.steps, List.foldl_append, hstart, ← habove, List.foldl_cons, List.foldl_nil,
    Path.go, if_neg h.down]

/-- What was written is found. -/
theorem find_of_write {content : File} {u : Unit} (h : write path content fs = .ok u fs') :
    ∃ access, fs'.find path = .ok (fs.destination path, .file access content) := by
  obtain ⟨front, name, above, access, hwrite, rfl⟩ := write_eq_ok h
  refine ⟨access, ?_⟩
  rw [hwrite.destination_eq]
  exact (hwrite.withNode content).find_eq (nodeAt_eq_file_iff.1 (nodeAt_withNode_self rfl hwrite.takes))

/-- What was there is there after a file was written, perhaps with other content. -/
theorem exists_find_of_write {content : File} {u : Unit} (h : write path content fs = .ok u fs') {other : String}
    {found : List String × FileTree} (hfind : fs.find other = .ok found) : ∃ found', fs'.find other = .ok found' := by
  obtain ⟨front, name, above, access, hwrite, rfl⟩ := write_eq_ok h
  obtain ⟨hcheck, hfollow, hsuits⟩ := find_eq_ok_iff_follow.1 hfind
  have hkept := hwrite.takes.keepsDirectories (n := .file access content) rfl
  have hn := nodeAt_of_get? (follow_eq_ok hfollow).2
  obtain ⟨tree', htree', hsuits'⟩ : ∃ tree', (fs.withNode (.file access content) (above ++ [name])).root.get? found.1 =
      some tree' ∧ Suits other tree' := by
    by_cases hq : found.1 = above ++ [name]
    · have hnew := nodeAt_eq_file_iff.1 (nodeAt_withNode_self (n := .file access content) rfl hwrite.takes)
      refine ⟨.file access content, by rw [hq]; exact hnew, ?_⟩
      have hleaf : found.2.isDirectory = false := by
        rw [← isDirectory_node, Bool.eq_false_iff]
        intro hdirectory
        exact hwrite.takes.free (hq ▸ hasDirectory_of_nodeAt hn hdirectory)
      exact hsuits.of_leaf hleaf _
    · have hsame : (fs.withNode (.file access content) (above ++ [name])).root.nodeAt found.1 = some found.2.node := by
        rw [nodeAt_withNode rfl hwrite.takes, if_neg hq, hn]
      obtain ⟨tree', htree', hnode⟩ := nodeAt_eq_some_iff.1 hsame
      exact ⟨tree', htree', hsuits.congr hnode.symm⟩
  exact ⟨(found.1, tree'), find_eq_ok_iff_follow.2 ⟨hcheck, follow_mono hkept hfollow htree', hsuits'⟩⟩

/-- A file that was written can be written again. -/
theorem exists_write_of_write {content : File} {u : Unit} (h : write path content fs = .ok u fs') (content' : File) :
    ∃ fs'', write path content' fs' = .ok () fs'' := by
  obtain ⟨front, name, above, access, hwrite, rfl⟩ := write_eq_ok h
  exact ⟨_, by rw [write, (hwrite.withNode content).writable_eq]⟩

end

end FileSystem

end Registrar
