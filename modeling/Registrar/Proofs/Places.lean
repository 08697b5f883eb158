import Registrar.Inputs
import Registrar.Proofs.Results

/-!
# Places

A file tree as a map from places to what stands there.

* `FileTree.node` : a tree without what is in it; `FileTree.nodeAt` : the node at a place;
* `nodeAt_put` : to put a node at a free place changes the map there and nowhere else;
* `CanPass` : all directories on a way can be entered; `KeepsDirectories` : no directory goes;
* `Path.place`, `Path.IsPlain` : the place to which a path without `..` leads;
* `FileSystem.follow_cons_eq_ok_iff` : what one step needs. `follow_mono` : a way that exists is still there after more
  was made;
* `FileSystem.find_eq_ok_iff` : what is found by a plain path;
* `FileSystem.node?` : the node that a path leads to. What is read by a path depends on nothing else.
-/

namespace Registrar

namespace FileTree

/-! ## Nodes -/

/-- A tree without the entries of the directory that it is. -/
def node : FileTree → FileTree
  | .directory access _ => .directory access []
  | tree => tree

@[simp] theorem isDirectory_file (access : Access) (content : File) : (file access content).isDirectory = false := rfl

@[simp] theorem isDirectory_directory (access : Access) (entries : List (String × FileTree)) :
    (directory access entries).isDirectory = true := rfl

@[simp] theorem canEnter_directory (access : Access) (entries : List (String × FileTree)) :
    (directory access entries).canEnter = access.enter := rfl

@[simp] theorem isDirectory_node (tree : FileTree) : tree.node.isDirectory = tree.isDirectory := by
  cases tree <;> rfl

@[simp] theorem canEnter_node (tree : FileTree) : tree.node.canEnter = tree.canEnter := by
  cases tree <;> rfl

theorem isDirectory_of_node {a b : FileTree} (h : a.node = b.node) : a.isDirectory = b.isDirectory := by
  rw [← isDirectory_node a, h, isDirectory_node]

theorem canEnter_of_node {a b : FileTree} (h : a.node = b.node) : a.canEnter = b.canEnter := by
  rw [← canEnter_node a, h, canEnter_node]

theorem isDirectory_of_canEnter {tree : FileTree} (h : tree.canEnter = true) : tree.isDirectory = true := by
  cases tree with
  | file access content => cases h
  | directory access entries => rfl

theorem node_eq_directory_iff {tree : FileTree} {access : Access} :
    tree.node = .directory access [] ↔ ∃ entries, tree = .directory access entries := by
  cases tree <;> simp [node]

theorem eq_file_of_node {tree : FileTree} {access : Access} {content : File} (h : tree.node = .file access content) :
    tree = .file access content := by
  cases tree with
  | file access content => exact h
  | directory access entries => cases h

theorem exists_directory {tree : FileTree} (h : tree.isDirectory = true) :
    ∃ access entries, tree = .directory access entries := by
  cases tree with
  | file access content => cases h
  | directory access entries => exact ⟨access, entries, rfl⟩

/-- The node at a place. -/
def nodeAt (root : FileTree) (place : List String) : Option FileTree := (root.get? place).map node

/-- Whether there is a directory at a place. -/
def HasDirectory (root : FileTree) (place : List String) : Prop :=
  ∃ access, root.nodeAt place = some (.directory access [])

theorem nodeAt_eq_none_iff {root : FileTree} {place : List String} :
    root.nodeAt place = none ↔ root.get? place = none := by
  unfold nodeAt
  exact Option.map_eq_none_iff

theorem nodeAt_eq_some_iff {root n : FileTree} {place : List String} :
    root.nodeAt place = some n ↔ ∃ tree, root.get? place = some tree ∧ tree.node = n := by
  unfold nodeAt
  exact Option.map_eq_some_iff

theorem nodeAt_of_get? {root tree : FileTree} {place : List String} (h : root.get? place = some tree) :
    root.nodeAt place = some tree.node := by
  rw [nodeAt, h, Option.map_some]

theorem nodeAt_eq_directory_iff {root : FileTree} {place : List String} {access : Access} :
    root.nodeAt place = some (.directory access []) ↔ ∃ entries, root.get? place = some (.directory access entries) := by
  rw [nodeAt_eq_some_iff]
  constructor
  · rintro ⟨tree, htree, hnode⟩
    obtain ⟨entries, rfl⟩ := node_eq_directory_iff.1 hnode
    exact ⟨entries, htree⟩
  · rintro ⟨entries, hentries⟩
    exact ⟨_, hentries, rfl⟩

theorem nodeAt_eq_file_iff {root : FileTree} {place : List String} {access : Access} {content : File} :
    root.nodeAt place = some (.file access content) ↔ root.get? place = some (.file access content) := by
  rw [nodeAt_eq_some_iff]
  constructor
  · rintro ⟨tree, htree, hnode⟩
    rwa [← eq_file_of_node hnode]
  · intro h
    exact ⟨_, h, rfl⟩

theorem entries_eq_nil_of_nodeAt {root : FileTree} {place : List String} {access : Access}
    {entries : List (String × FileTree)} (h : root.nodeAt place = some (.directory access entries)) : entries = [] := by
  obtain ⟨tree, -, hnode⟩ := nodeAt_eq_some_iff.1 h
  cases tree <;> cases hnode
  rfl

theorem hasDirectory_of_nodeAt {root n : FileTree} {place : List String} (h : root.nodeAt place = some n)
    (hdirectory : n.isDirectory = true) : HasDirectory root place := by
  obtain ⟨access, entries, rfl⟩ := exists_directory hdirectory
  obtain rfl := entries_eq_nil_of_nodeAt h
  exact ⟨access, h⟩

theorem not_hasDirectory_of_nodeAt {root n : FileTree} {place : List String} (h : root.nodeAt place = some n)
    (hleaf : n.isDirectory = false) : ¬ HasDirectory root place := by
  rintro ⟨access, hdirectory⟩
  obtain rfl := Option.some.inj (h.symm.trans hdirectory)
  cases hleaf

theorem not_hasDirectory_of_none {root : FileTree} {place : List String} (h : root.nodeAt place = none) :
    ¬ HasDirectory root place := by
  rintro ⟨access, hdirectory⟩
  rw [h] at hdirectory
  cases hdirectory

/-! ## Below a place -/

theorem get?_append (root : FileTree) (place below : List String) :
    root.get? (place ++ below) = (root.get? place).bind (·.get? below) := by
  induction place generalizing root with
  | nil => rw [List.nil_append, get?, Option.bind_some]
  | cons name place ih =>
    cases root with
    | directory access entries =>
      rw [List.cons_append, get?, get?]
      cases entries.lookup name with
      | none => rfl
      | some tree => exact ih tree
    | file access content => rfl

/-- Only in a directory can something stand. -/
theorem exists_directory_of_get? {root tree : FileTree} {place : List String} {name : String} {below : List String}
    (h : root.get? (place ++ name :: below) = some tree) :
    ∃ access entries, root.get? place = some (.directory access entries) := by
  rw [get?_append] at h
  obtain ⟨above, habove, hbelow⟩ := Option.bind_eq_some_iff.1 h
  cases above with
  | directory access entries => exact ⟨access, entries, habove⟩
  | file access content => exact absurd hbelow (by simp [get?])

theorem hasDirectory_above {root : FileTree} {place : List String} {name : String} {below : List String}
    (h : root.nodeAt (place ++ name :: below) ≠ none) : HasDirectory root place := by
  obtain ⟨n, hn⟩ := Option.ne_none_iff_exists'.1 h
  obtain ⟨tree, htree, -⟩ := nodeAt_eq_some_iff.1 hn
  obtain ⟨access, entries, hentries⟩ := exists_directory_of_get? htree
  exact ⟨access, nodeAt_of_get? hentries⟩

theorem lookup_cons_eq (name : String) (entry : String × FileTree) (entries : List (String × FileTree)) :
    (entry :: entries).lookup name = if name = entry.1 then some entry.2 else entries.lookup name := by
  rw [List.lookup_cons]
  by_cases h : name = entry.1
  · rw [if_pos h, beq_iff_eq.2 h]
  · rw [if_neg h, beq_eq_false_iff_ne.2 h]

theorem lookup_setEntry (name n : String) (tree : FileTree) (entries : List (String × FileTree)) :
    (setEntry name tree entries).lookup n = if n = name then some tree else entries.lookup n := by
  induction entries with
  | nil =>
    rw [setEntry, lookup_cons_eq]
  | cons entry entries ih =>
    unfold setEntry
    by_cases hentry : entry.1 = name
    · rw [if_pos hentry, lookup_cons_eq, lookup_cons_eq, hentry]
      by_cases h : n = name
      · rw [if_pos h, if_pos h]
      · rw [if_neg h, if_neg h, if_neg h]
    · rw [if_neg hentry, lookup_cons_eq, lookup_cons_eq, ih]
      by_cases h : n = entry.1
      · rw [if_pos h, if_pos h, if_neg (h ▸ hentry)]
      · rw [if_neg h, if_neg h]

/-- Nothing stands below a file. -/
theorem get?_of_leaf {tree : FileTree} (h : tree.isDirectory = false) (name : String) (below : List String) :
    tree.get? (name :: below) = none := by
  cases tree with
  | directory access entries => cases h
  | file access content => rfl

/-- Nothing stands below a bare node. -/
theorem get?_of_node_eq {n : FileTree} (h : n.node = n) (name : String) (below : List String) :
    n.get? (name :: below) = none := by
  cases n with
  | directory access entries =>
    cases h
    rfl
  | file access content => rfl

theorem nodeAt_put_singleton {n : FileTree} {access : Access} {entries : List (String × FileTree)} {name : String}
    (hn : n.node = n) (hfree : ¬ HasDirectory (directory access entries) [name]) (q : List String) :
    (put n (.directory access entries) [name]).nodeAt q =
      if q = [name] then some n else (directory access entries).nodeAt q := by
  rw [put, put]
  cases q with
  | nil => rfl
  | cons s below =>
    unfold nodeAt
    rw [get?, get?, lookup_setEntry]
    by_cases hs : s = name
    · subst hs
      rw [if_pos rfl]
      cases below with
      | nil =>
        rw [if_pos rfl]
        exact congrArg some hn
      | cons t below =>
        -- Nothing stands below the node, and nothing stood below what it replaces.
        rw [if_neg (by simp)]
        show (n.get? (t :: below)).map node = _
        rw [get?_of_node_eq hn]
        cases hlookup : entries.lookup s with
        | none => rfl
        | some tree =>
          have hleaf : tree.isDirectory = false := by
            rw [Bool.eq_false_iff]
            intro hdirectory
            apply hfree
            apply hasDirectory_of_nodeAt (n := tree.node) _ ((isDirectory_node tree).trans hdirectory)
            rw [nodeAt, get?, hlookup]
            rfl
          show _ = (tree.get? (t :: below)).map node
          rw [get?_of_leaf hleaf]
    · rw [if_neg hs, if_neg (by simp [hs])]

/-- To put a node where no directory stands changes what stands there, and nothing else. -/
theorem nodeAt_put {n root : FileTree} {place : List String} {name : String} (hn : n.node = n)
    (hroom : HasDirectory root place) (hfree : ¬ HasDirectory root (place ++ [name])) (q : List String) :
    (put n root (place ++ [name])).nodeAt q = if q = place ++ [name] then some n else root.nodeAt q := by
  obtain ⟨access, hroom⟩ := hroom
  induction place generalizing root q with
  | nil =>
    obtain ⟨entries, hentries⟩ := nodeAt_eq_directory_iff.1 hroom
    cases Option.some.inj hentries
    exact nodeAt_put_singleton hn hfree q
  | cons first place ih =>
    obtain ⟨tree, htree, -⟩ := nodeAt_eq_some_iff.1 hroom
    obtain ⟨access', entries, hroot⟩ :=
      exists_directory_of_get? (show root.get? ([] ++ first :: place) = some tree from htree)
    cases Option.some.inj hroot
    rw [List.cons_append, put]
    cases hlookup : entries.lookup first with
    | none =>
      rw [nodeAt, get?, hlookup] at hroom
      cases hroom
    | some below =>
      have hinner (p : List String) : (directory access' entries).nodeAt (first :: p) = below.nodeAt p := by
        rw [nodeAt, get?, hlookup]
        rfl
      rw [hinner] at hroom
      simp only [HasDirectory, List.cons_append, hinner] at hfree
      cases q with
      | nil => rfl
      | cons s rest =>
        rw [Option.getD_some, nodeAt, get?, lookup_setEntry]
        by_cases hs : s = first
        · subst hs
          rw [if_pos rfl, hinner]
          have hrest := ih hfree rest hroom
          rw [nodeAt] at hrest
          simp only [hrest, List.cons.injEq, true_and]
        · rw [if_neg hs, if_neg (by simp [hs]), nodeAt, get?]

/-! ## Ways -/

/-- Whether each directory from which one of some steps starts can be entered. -/
def CanPass (root : FileTree) (start steps : List String) : Prop :=
  ∀ front step, front ++ [step] <+: steps → ∃ access, root.nodeAt (start ++ front) = some (.directory access []) ∧
    access.enter = true

theorem canPass_nil (root : FileTree) (start : List String) : CanPass root start [] := by
  intro front step h
  exact absurd (List.prefix_nil.1 h) (by simp)

theorem canPass_cons {root : FileTree} {start steps : List String} {step : String} :
    CanPass root start (step :: steps) ↔
      (∃ access, root.nodeAt start = some (.directory access []) ∧ access.enter = true) ∧
        CanPass root (start ++ [step]) steps := by
  constructor
  · intro h
    refine ⟨by simpa using h [] step ⟨steps, rfl⟩, fun front last hfront => ?_⟩
    have hlater := h (step :: front) last (by simpa using hfront)
    rwa [List.append_assoc, List.singleton_append]
  · rintro ⟨hfirst, hlater⟩ front last hfront
    cases front with
    | nil => simpa using hfirst
    | cons other front =>
      obtain ⟨rfl, hbehind⟩ := List.cons_prefix_cons.1 (show other :: (front ++ [last]) <+: step :: steps from hfront)
      have hmid := hlater front last hbehind
      rwa [List.append_assoc, List.singleton_append] at hmid

/-- The directories of a file tree are in another one, with the same access. -/
def KeepsDirectories (root root' : FileTree) : Prop :=
  ∀ place access, root.nodeAt place = some (.directory access []) → root'.nodeAt place = some (.directory access [])

theorem CanPass.mono {root root' : FileTree} {start steps : List String} (h : CanPass root start steps)
    (hkept : KeepsDirectories root root') : CanPass root' start steps := by
  intro front step hfront
  obtain ⟨access, hnode, henter⟩ := h front step hfront
  exact ⟨access, hkept _ access hnode, henter⟩

/-- A way that leads somewhere already could be passed before, if it can be passed later. -/
theorem CanPass.before {root root' : FileTree} {start steps : List String} (h : CanPass root' start steps)
    (hkept : KeepsDirectories root root') (hend : root.nodeAt (start ++ steps) ≠ none) : CanPass root start steps := by
  intro front step hfront
  obtain ⟨access', hnode', henter⟩ := h front step hfront
  obtain ⟨behind, rfl⟩ := hfront
  have hway : start ++ (front ++ [step] ++ behind) = start ++ front ++ step :: behind := by simp
  rw [hway] at hend
  obtain ⟨access, hnode⟩ := hasDirectory_above hend
  have hsame := hkept _ access hnode
  rw [hnode', Option.some.injEq, directory.injEq] at hsame
  exact ⟨access, hnode, hsame.1 ▸ henter⟩

end FileTree

/-! ## Plain paths -/

namespace Path

/-- A path that goes down only. -/
def IsPlain (path : String) : Prop := ".." ∉ steps path

instance (path : String) : Decidable (IsPlain path) := inferInstanceAs (Decidable (_ ∉ _))

/-- The place one step further. -/
def go (place : List String) (step : String) : List String := if step = ".." then place.dropLast else place ++ [step]

theorem foldl_go {steps : List String} (h : ".." ∉ steps) (place : List String) :
    steps.foldl go place = place ++ steps := by
  induction steps generalizing place with
  | nil => exact (List.append_nil _).symm
  | cons step steps ih =>
    rw [List.mem_cons, not_or] at h
    rw [List.foldl_cons, ih h.2, go, if_neg (Ne.symm h.1), List.append_assoc, List.singleton_append]

/-- The place to which a plain path leads, if relative paths start in a directory. -/
def place (directory : List String) (path : String) : List String :=
  (if isAbsolute path then [] else directory) ++ steps path

end Path

namespace FileSystem

open FileTree

/-- The place to which a plain path leads. -/
abbrev place (fs : FileSystem) (path : String) : List String := Path.place fs.workingDirectory path

theorem place_eq (fs : FileSystem) (path : String) : fs.place path = fs.start path ++ Path.steps path := rfl

/-- Whether a name can be the name of a directory or a file. -/
def Fits (name : String) : Prop := name.utf8ByteSize ≤ Path.maxNameLength

/-- Whether a path can be used for what stands at its end. -/
structure Suits (path : String) (tree : FileTree) : Prop where
  names : Path.namesDirectory path = true → tree.isDirectory = true
  inside : Path.endsInside path = true → tree.canEnter = true

theorem suits_node {path : String} {tree : FileTree} : Suits path tree.node ↔ Suits path tree := by
  constructor
  · rintro ⟨hnames, hinside⟩
    exact ⟨by simpa using hnames, by simpa using hinside⟩
  · rintro ⟨hnames, hinside⟩
    exact ⟨by simpa using hnames, by simpa using hinside⟩

theorem Suits.congr {path : String} {a b : FileTree} (h : Suits path a) (hnode : a.node = b.node) : Suits path b :=
  suits_node.1 (hnode ▸ suits_node.2 h)

/-- A path that can be used for a file can be used for anything. -/
theorem Suits.of_leaf {path : String} {a : FileTree} (h : Suits path a) (ha : a.isDirectory = false) (b : FileTree) :
    Suits path b := by
  refine ⟨fun hnames => ?_, fun hinside => ?_⟩
  · rw [h.names hnames] at ha
    cases ha
  · rw [isDirectory_of_canEnter (h.inside hinside)] at ha
    cases ha

theorem follow_nil_eq_ok_iff {root : FileTree} {start : List String} {found : List String × FileTree} :
    follow root start [] = .ok found ↔ found.1 = start ∧ root.get? start = some found.2 := by
  obtain ⟨place, tree⟩ := found
  unfold follow
  cases root.get? start with
  | none => simp
  | some tree' => simp [eq_comm]

/-- A step leads out of a directory that can be entered. -/
theorem follow_cons_eq_ok_iff {root : FileTree} {start steps : List String} {step : String}
    {found : List String × FileTree} : follow root start (step :: steps) = .ok found ↔
      (∃ access, root.nodeAt start = some (.directory access []) ∧ access.enter = true) ∧
        (step ≠ ".." → Fits step) ∧ follow root (Path.go start step) steps = .ok found := by
  rw [follow]
  cases hstart : root.get? start with
  | none => simp [nodeAt_eq_none_iff.2 hstart]
  | some tree =>
    rw [nodeAt_of_get? hstart]
    cases tree with
    | file access content => simp [node]
    | directory access entries =>
      have hroom : (∃ a, some (directory access entries).node = some (directory a []) ∧ a.enter = true) ↔
          access.enter = true := by simp [node]
      rw [hroom, Path.go]
      by_cases henter : access.enter = true
      · by_cases hup : step = ".."
        · simp [henter, hup]
        · by_cases hlong : Path.maxNameLength < step.utf8ByteSize
          · have hnot : ¬ Fits step := Nat.not_le.2 hlong
            simp [henter, hup, hlong, hnot]
          · have hfits : Fits step := Nat.not_lt.1 hlong
            simp [henter, hup, hlong, hfits]
      · simp [henter]

theorem follow_eq_ok {root : FileTree} {start steps : List String} {found : List String × FileTree}
    (h : follow root start steps = .ok found) :
    found.1 = steps.foldl Path.go start ∧ root.get? found.1 = some found.2 := by
  induction steps generalizing start with
  | nil =>
    obtain ⟨hplace, hget⟩ := follow_nil_eq_ok_iff.1 h
    exact ⟨hplace, hplace ▸ hget⟩
  | cons step steps ih =>
    obtain ⟨-, -, hrest⟩ := follow_cons_eq_ok_iff.1 h
    exact ih hrest

theorem exists_of_follow {root : FileTree} {start steps : List String} {found : List String × FileTree}
    (h : follow root start steps = .ok found) : ∃ tree, root.get? start = some tree := by
  cases steps with
  | nil => exact ⟨found.2, (follow_nil_eq_ok_iff.1 h).2⟩
  | cons step steps =>
    obtain ⟨⟨access, hnode, -⟩, -⟩ := follow_cons_eq_ok_iff.1 h
    obtain ⟨entries, hentries⟩ := nodeAt_eq_directory_iff.1 hnode
    exact ⟨_, hentries⟩

/-- To follow steps is to follow the first ones, and the others from there. -/
theorem follow_append_eq_ok_iff {root : FileTree} {start front behind : List String}
    {found : List String × FileTree} : follow root start (front ++ behind) = .ok found ↔
      ∃ between, follow root start front = .ok between ∧ follow root between.1 behind = .ok found := by
  induction front generalizing start with
  | nil =>
    constructor
    · intro h
      obtain ⟨tree, htree⟩ := exists_of_follow h
      exact ⟨(start, tree), follow_nil_eq_ok_iff.2 ⟨rfl, htree⟩, h⟩
    · rintro ⟨between, hbetween, h⟩
      rw [(follow_eq_ok hbetween).1] at h
      exact h
  | cons step front ih =>
    rw [List.cons_append, follow_cons_eq_ok_iff, ih]
    simp only [follow_cons_eq_ok_iff]
    constructor
    · rintro ⟨hroom, hfits, between, hbetween, h⟩
      exact ⟨between, ⟨hroom, hfits, hbetween⟩, h⟩
    · rintro ⟨between, ⟨hroom, hfits, hbetween⟩, h⟩
      exact ⟨hroom, hfits, between, hbetween, h⟩

/-- A way leads to the same place if the directories on it are kept. -/
theorem follow_mono {root root' : FileTree} (hkept : KeepsDirectories root root')
    {start steps : List String} {found : List String × FileTree} (h : follow root start steps = .ok found)
    {tree' : FileTree} (htree' : root'.get? found.1 = some tree') : follow root' start steps = .ok (found.1, tree') := by
  induction steps generalizing start with
  | nil =>
    obtain ⟨hplace, -⟩ := follow_nil_eq_ok_iff.1 h
    exact follow_nil_eq_ok_iff.2 ⟨hplace, hplace ▸ htree'⟩
  | cons step steps ih =>
    obtain ⟨⟨access, hnode, henter⟩, hfits, hrest⟩ := follow_cons_eq_ok_iff.1 h
    exact follow_cons_eq_ok_iff.2 ⟨⟨access, hkept _ access hnode, henter⟩, hfits, ih hrest⟩

theorem follow_eq_ok_iff {root : FileTree} {start steps : List String} {found : List String × FileTree}
    (hplain : ".." ∉ steps) :
    follow root start steps = .ok found ↔ root.get? (start ++ steps) = some found.2 ∧ found.1 = start ++ steps ∧
      (∀ step ∈ steps, Fits step) ∧ CanPass root start steps := by
  induction steps generalizing start with
  | nil =>
    rw [follow_nil_eq_ok_iff, List.append_nil]
    simp [and_comm, canPass_nil]
  | cons step steps ih =>
    rw [List.mem_cons, not_or] at hplain
    have hstep : step ≠ ".." := Ne.symm hplain.1
    have hnext : start ++ step :: steps = (start ++ [step]) ++ steps := by simp
    rw [follow_cons_eq_ok_iff, Path.go, if_neg hstep, ih hplain.2, hnext, List.forall_mem_cons, canPass_cons]
    constructor
    · rintro ⟨hroom, hfits, hget, hplace, hothers, hpass⟩
      exact ⟨hget, hplace, ⟨hfits hstep, hothers⟩, hroom, hpass⟩
    · rintro ⟨hget, hplace, ⟨hfits, hothers⟩, hroom, hpass⟩
      exact ⟨hroom, fun _ => hfits, hget, hplace, hothers, hpass⟩

theorem find_eq_ok_iff_follow {fs : FileSystem} {path : String} {found : List String × FileTree} :
    fs.find path = .ok found ↔ check path = .ok () ∧ follow fs.root (fs.start path) (Path.steps path) = .ok found ∧
      Suits path found.2 := by
  unfold find
  rw [Except.bind_eq_ok_iff]
  constructor
  · rintro ⟨_, hcheck, h⟩
    obtain ⟨found', hfollow, h⟩ := Except.bind_eq_ok_iff.1 h
    by_cases hnames : (Path.namesDirectory path && !found'.2.isDirectory) = true
    · rw [if_pos hnames] at h
      cases h
    · rw [if_neg hnames] at h
      by_cases hinside : (Path.endsInside path && !found'.2.canEnter) = true
      · rw [if_pos hinside] at h
        cases h
      · rw [if_neg hinside] at h
        cases h
        exact ⟨hcheck, hfollow, fun hpath => by simpa [hpath] using hnames, fun hpath => by simpa [hpath] using hinside⟩
  · rintro ⟨hcheck, hfollow, hsuits⟩
    refine ⟨(), hcheck, Except.bind_eq_ok_iff.2 ⟨found, hfollow, ?_⟩⟩
    have hnames : ¬ (Path.namesDirectory path && !found.2.isDirectory) = true := by
      simpa using hsuits.names
    have hinside : ¬ (Path.endsInside path && !found.2.canEnter) = true := by
      simpa using hsuits.inside
    rw [if_neg hnames, if_neg hinside]
    rfl

theorem find_eq_ok_iff {fs : FileSystem} {path : String} {found : List String × FileTree} (hplain : Path.IsPlain path) :
    fs.find path = .ok found ↔ check path = .ok () ∧ (∀ step ∈ Path.steps path, Fits step) ∧
      CanPass fs.root (fs.start path) (Path.steps path) ∧ fs.root.get? (fs.place path) = some found.2 ∧
      found.1 = fs.place path ∧ Suits path found.2 := by
  rw [find_eq_ok_iff_follow, follow_eq_ok_iff hplain, ← place_eq]
  constructor
  · rintro ⟨hcheck, ⟨hget, hplace, hfits, hpass⟩, hsuits⟩
    exact ⟨hcheck, hfits, hpass, hget, hplace, hsuits⟩
  · rintro ⟨hcheck, hfits, hpass, hget, hplace, hsuits⟩
    exact ⟨hcheck, ⟨hget, hplace, hfits, hpass⟩, hsuits⟩

/-! ## What is read -/

/-- The node that a path leads to. -/
def node? (fs : FileSystem) (path : String) : Option FileTree :=
  match fs.find path with
  | .ok (_, tree) => some tree.node
  | .error _ => none

theorem node?_eq_some_iff {fs : FileSystem} {path : String} {n : FileTree} (hplain : Path.IsPlain path) :
    fs.node? path = some n ↔ check path = .ok () ∧ (∀ step ∈ Path.steps path, Fits step) ∧
      CanPass fs.root (fs.start path) (Path.steps path) ∧ fs.root.nodeAt (fs.place path) = some n ∧ Suits path n := by
  have hnode : fs.node? path = some n ↔ ∃ found, fs.find path = .ok found ∧ found.2.node = n := by
    unfold node?
    cases fs.find path <;> simp
  rw [hnode]
  constructor
  · rintro ⟨found, hfind, rfl⟩
    obtain ⟨hcheck, hfits, hpass, hget, -, hsuits⟩ := (find_eq_ok_iff hplain).1 hfind
    exact ⟨hcheck, hfits, hpass, nodeAt_of_get? hget, suits_node.2 hsuits⟩
  · rintro ⟨hcheck, hfits, hpass, hget, hsuits⟩
    obtain ⟨tree, htree, rfl⟩ := nodeAt_eq_some_iff.1 hget
    exact ⟨(fs.place path, tree),
      (find_eq_ok_iff hplain).2 ⟨hcheck, hfits, hpass, htree, rfl, suits_node.1 hsuits⟩, rfl⟩

/-- What a plain path leads to depends on the node at its place only, as long as no directory goes. -/
theorem node?_congr {fs fs' : FileSystem} {path : String} (hplain : Path.IsPlain path)
    (hdirectory : fs'.workingDirectory = fs.workingDirectory) (hkept : KeepsDirectories fs.root fs'.root)
    (hnode : fs.root.nodeAt (fs.place path) = fs'.root.nodeAt (fs.place path)) : fs.node? path = fs'.node? path := by
  apply Option.ext
  intro n
  have hstart : fs'.start path = fs.start path := by rw [start, start, hdirectory]
  have hplace : fs'.place path = fs.place path := congrArg (Path.place · path) hdirectory
  rw [node?_eq_some_iff hplain, node?_eq_some_iff hplain, hstart, hplace, ← hnode]
  constructor
  · rintro ⟨hcheck, hfits, hpass, hn, hsuits⟩
    exact ⟨hcheck, hfits, hpass.mono hkept, hn, hsuits⟩
  · rintro ⟨hcheck, hfits, hpass, hn, hsuits⟩
    refine ⟨hcheck, hfits, hpass.before hkept ?_, hn, hsuits⟩
    rw [← place_eq, hn]
    exact Option.some_ne_none n

theorem isFile_eq (fs : FileSystem) (path : String) : fs.isFile path = (fs.node? path).any (!·.isDirectory) := by
  unfold isFile node?
  cases fs.find path with
  | error fault => rfl
  | ok found => exact congrArg not (isDirectory_node _).symm

/-- The file that a node is. -/
def fileNode : FileTree → Except FileFault File
  | .file access content => if access.read then .ok content else .error .denied
  | .directory access _ => .error (if access.read then .isDirectory else .denied)

theorem file_eq {fs : FileSystem} {path : String} {n : FileTree} (h : fs.node? path = some n) :
    fs.file path = fileNode n := by
  unfold node? at h
  unfold file
  split at h
  · next tree hfind =>
    cases h
    rw [hfind]
    cases tree <;> rfl
  · cases h

theorem read_eq {fs : FileSystem} {path : String} {n : FileTree} (h : fs.node? path = some n) :
    fs.read path = (fileNode n).map (·.data) := by
  rw [read, file_eq h]

theorem readFile_eq {fs : FileSystem} {path : String} {n : FileTree} (h : fs.node? path = some n) :
    fs.readFile path = ((fileNode n).map (·.data)).mapError (.readFile path) := by
  rw [readFile, read_eq h]

/-- The archive that a node is. -/
def openNode (path : String) : FileTree → Except AccessError Archive
  | .file access content =>
    if access.read then
      match content.archive with
      | some archive => .ok archive
      | none => .error (.readArchive path)
    else .error (.openFile path .denied)
  | .directory access _ => .error (if access.read then .readArchive path else .openFile path .denied)

theorem openArchive_eq {fs : FileSystem} {path : String} {n : FileTree} (h : fs.node? path = some n) :
    fs.openArchive path = openNode path n := by
  unfold node? at h
  unfold openArchive
  split at h
  · next tree hfind =>
    cases h
    rw [hfind]
    cases tree <;> rfl
  · cases h

theorem openArchive_eq_error {fs : FileSystem} {path : String} (h : fs.node? path = none) :
    ∃ cause, fs.openArchive path = .error cause := by
  unfold node? at h
  unfold openArchive
  split at h
  · cases h
  · next hfind =>
    rw [hfind]
    exact ⟨_, rfl⟩

theorem read_eq_ok_iff {fs : FileSystem} {path : String} {data : List UInt8} :
    fs.read path = .ok data ↔
      ∃ access content, fs.node? path = some (.file access content) ∧ access.read = true ∧ content.data = data := by
  unfold read file node?
  cases fs.find path with
  | error fault => simp [Except.map]
  | ok found =>
    obtain ⟨place, tree⟩ := found
    cases tree with
    | directory access entries => simp [Except.map, node]
    | file access content => cases hread : access.read <;> simp [Except.map, node, hread]

/-- The bytes of the file that a path leads to, whether or not they may be read. -/
def data? (fs : FileSystem) (path : String) : Option (List UInt8) :=
  match fs.node? path with
  | some (.file _ content) => some content.data
  | _ => none

/-- What can be read is what is there. -/
theorem data?_of_read {fs : FileSystem} {path : String} {data : List UInt8} (h : fs.read path = .ok data) :
    fs.data? path = some data := by
  obtain ⟨access, content, hnode, -, rfl⟩ := read_eq_ok_iff.1 h
  rw [data?, hnode]

end FileSystem

/-! ## Roots -/

namespace Root

/-- The path at which a root looks for an entry. -/
def pathOf (entry : String) : Root → String
  | .directory path => Path.join path entry
  | .archive path => path

theorem holds_congr {fs fs' : FileSystem} {entry : String} {root : Root}
    (h : fs.node? (root.pathOf entry) = fs'.node? (root.pathOf entry)) :
    root.holds fs entry = root.holds fs' entry := by
  cases root with
  | directory path =>
    show fs.isFile _ = fs'.isFile _
    rw [FileSystem.isFile_eq, FileSystem.isFile_eq]
    exact congrArg _ h
  | archive path =>
    change fs.node? path = fs'.node? path at h
    simp only [holds]
    cases hnode : fs.node? path with
    | none =>
      obtain ⟨cause, hcause⟩ := FileSystem.openArchive_eq_error hnode
      obtain ⟨cause', hcause'⟩ := FileSystem.openArchive_eq_error (h ▸ hnode)
      rw [hcause, hcause']
    | some n => rw [FileSystem.openArchive_eq hnode, FileSystem.openArchive_eq (h ▸ hnode)]

theorem node?_ne_none_of_holds {fs : FileSystem} {entry : String} {root : Root} (h : root.holds fs entry = true) :
    fs.node? (root.pathOf entry) ≠ none := by
  intro hnone
  cases root with
  | directory path =>
    change fs.isFile _ = true at h
    change fs.node? (Path.join path entry) = none at hnone
    rw [FileSystem.isFile_eq, hnone] at h
    cases h
  | archive path =>
    change fs.node? path = none at hnone
    obtain ⟨cause, hcause⟩ := FileSystem.openArchive_eq_error hnone
    rw [holds, hcause] at h
    cases h

theorem readEntry_congr {fs fs' : FileSystem} {entry : String} {root : Root}
    (h : fs.node? (root.pathOf entry) = fs'.node? (root.pathOf entry)) (hholds : root.holds fs entry = true) :
    root.readEntry fs entry = root.readEntry fs' entry := by
  obtain ⟨n, hn⟩ := Option.ne_none_iff_exists'.1 (node?_ne_none_of_holds hholds)
  have hn' := h ▸ hn
  cases root with
  | directory path => exact (FileSystem.readFile_eq hn).trans (FileSystem.readFile_eq hn').symm
  | archive path =>
    change fs.node? path = some n at hn
    change fs'.node? path = some n at hn'
    simp only [readEntry, FileSystem.readEntry, FileSystem.openArchive_eq hn, FileSystem.openArchive_eq hn']

end Root

namespace Inputs

/-- Which root holds a class depends on the nodes at which the roots look for it. -/
theorem locate?_congr {i : Inputs} {fs fs' : FileSystem} {className : String}
    (h : ∀ root ∈ i.roots, fs.node? (root.pathOf (classEntryName className)) =
      fs'.node? (root.pathOf (classEntryName className))) :
    i.locate? fs className = i.locate? fs' className := by
  unfold locate?
  generalize i.roots = roots at h
  induction roots with
  | nil => rfl
  | cons root roots ih =>
    rw [List.forall_mem_cons] at h
    rw [List.find?_cons, List.find?_cons, Root.holds_congr h.1, ih h.2]

end Inputs

end Registrar
