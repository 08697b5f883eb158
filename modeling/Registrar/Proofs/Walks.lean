import Mathlib.Data.List.Lex
import Mathlib.Data.List.Nodup
import Mathlib.Data.List.Sort
import Mathlib.Data.String.Basic
import Registrar.Proofs.Destinations

/-!
# What a walk over a file tree lists

* `IsName`, `FileTree.Sound` : a tree as file systems have them, every entry of a directory under a name of its own.
  `Sound.put` : it stays sound when something is put into it;
* `Path.IsDirect` : a path that leads down by each of its pieces;
* `FileTree.Listed` : what a listing of a tree holds, `FileTree.Blocked` : what it comes to and cannot be listed;
* `listed_or_blocked` : a file is listed, or something on the way to it cannot be;
* `mem_walk_iff` : a walk lists just this. `blocked_of_walk`, `exists_walk` : it fails where it is blocked;
* `Ascending`, `ascending_of_walk` : the order in which a walk lists;
* `FileSystem.find_join_eq_ok_iff` : what is found below a path;
* `FileSystem.Lists`, `mem_filesBelow_iff`, `Listing` : what is listed below a path, and in which order.
-/

namespace Registrar

/-! ## Names -/

/-- Whether a text can be the name of an entry of a directory. -/
def IsName (name : String) : Prop := name ≠ "" ∧ name ≠ "." ∧ name ≠ ".." ∧ '/' ∉ name.toList

instance (name : String) : Decidable (IsName name) := by unfold IsName; infer_instance

namespace Path

theorem not_isIdle_of_isName {name : String} (h : IsName name) : isIdle name = false := by
  unfold isIdle
  rw [Bool.or_eq_false_iff, beq_eq_false_iff_ne]
  exact ⟨by simpa using h.1, h.2.1⟩

/-- A step that does not go up is a name. -/
theorem isName_of_mem_steps {path step : String} (h : step ∈ steps path) (hdown : step ≠ "..") : IsName step := by
  obtain ⟨hpiece, hidle⟩ := List.mem_filter.1 h
  rw [Bool.not_eq_true', isIdle, Bool.or_eq_false_iff, beq_eq_false_iff_ne] at hidle
  exact ⟨by simpa using hidle.1, hidle.2, hdown, not_mem_of_mem_pieces hpiece⟩

section

variable {q : List String}

theorem pieces_ofPieces_of_isName (hq : q ≠ []) (h : ∀ name ∈ q, IsName name) : pieces (ofPieces q) = q :=
  pieces_ofPieces hq fun name hname => (h name hname).2.2.2

theorem steps_ofPieces (hq : q ≠ []) (h : ∀ name ∈ q, IsName name) : steps (ofPieces q) = q := by
  rw [steps, pieces_ofPieces_of_isName hq h, List.filter_eq_self]
  intro name hname
  rw [not_isIdle_of_isName (h name hname), Bool.not_false]

theorem isAbsolute_ofPieces_of_isName (hq : q ≠ []) (h : ∀ name ∈ q, IsName name) :
    isAbsolute (ofPieces q) = false := by
  rw [Bool.eq_false_iff, ne_eq, isAbsolute_iff, pieces_ofPieces_of_isName hq h]
  rintro ⟨next, rest, rfl⟩
  exact (h "" List.mem_cons_self).1 rfl

end

/-- Behind a name there is a slash. -/
theorem room_join (base : String) {name : String} (h : IsName name) :
    room (join base name) = room base + name.utf8ByteSize + 1 := by
  have hclosed : isOpen (join base name) = false := by
    obtain ⟨hne, -, -, hslash⟩ := h
    have hlist : name.toList ≠ [] := mt String.toList_eq_nil_iff.1 hne
    have hlast (front : String) : isOpen (front ++ name) = false := by
      unfold isOpen
      rw [String.toList_append, List.getLast?_append_of_ne_nil _ hlist, List.getLast?_eq_some_getLast hlist]
      exact decide_eq_false fun hc => hslash (hc ▸ List.getLast_mem hlist)
    unfold join
    rw [if_neg (Bool.eq_false_iff.1 (isAbsolute_of_not_mem hslash))]
    split
    · exact hlast base
    · exact hlast (base ++ "/")
  rw [room, if_neg (Bool.eq_false_iff.1 hclosed), utf8ByteSize_join base (isAbsolute_of_not_mem h.2.2.2)]

/-- A path that leads down by each of its pieces. -/
def IsDirect (path : String) : Prop := ∀ piece ∈ pieces path, IsName piece

instance (path : String) : Decidable (IsDirect path) := inferInstanceAs (Decidable (∀ _ ∈ _, _))

namespace IsDirect

variable {path : String}

theorem pieces_ne_nil (path : String) : pieces path ≠ [] := mt List.map_eq_nil_iff.1 (splitSlashes_ne_nil path.toList)

theorem steps_eq (h : IsDirect path) : steps path = pieces path := by
  have hsteps := steps_ofPieces (pieces_ne_nil path) h
  rwa [ofPieces_pieces] at hsteps

theorem isAbsolute (h : IsDirect path) : Path.isAbsolute path = false := by
  have habsolute := isAbsolute_ofPieces_of_isName (pieces_ne_nil path) h
  rwa [ofPieces_pieces] at habsolute

theorem isPlain (h : IsDirect path) : IsPlain path := by
  intro hup
  rw [h.steps_eq] at hup
  exact (h _ hup).2.2.1 rfl

end IsDirect

end Path

namespace FileTree

/-! ## Sound trees -/

/-- Every entry of a directory has a name of its own. -/
inductive Sound : FileTree → Prop
  | file (access : Access) (content : File) : Sound (.file access content)
  | directory {access : Access} {entries : List (String × FileTree)} : (entries.map Prod.fst).Nodup →
      (∀ entry ∈ entries, IsName entry.1) → (∀ entry ∈ entries, Sound entry.2) → Sound (.directory access entries)

theorem sound_file (access : Access) (content : File) : Sound (.file access content) := .file access content

theorem sound_directory_iff {access : Access} {entries : List (String × FileTree)} :
    Sound (.directory access entries) ↔
      (entries.map Prod.fst).Nodup ∧ (∀ entry ∈ entries, IsName entry.1) ∧ ∀ entry ∈ entries, Sound entry.2 := by
  constructor
  · intro h
    cases h with
    | directory hnodup hnames htrees => exact ⟨hnodup, hnames, htrees⟩
  · rintro ⟨hnodup, hnames, htrees⟩
    exact .directory hnodup hnames htrees

theorem sound_empty (access : Access) : Sound (.directory access []) := .directory List.nodup_nil (by simp) (by simp)

theorem mem_of_lookup {entries : List (String × FileTree)} {name : String} {tree : FileTree}
    (h : entries.lookup name = some tree) : (name, tree) ∈ entries := by
  obtain ⟨front, behind, rfl, -⟩ := List.lookup_eq_some_iff.1 h
  exact List.mem_append_right _ List.mem_cons_self

theorem lookup_of_mem {entries : List (String × FileTree)} {name : String} {tree : FileTree}
    (hnodup : (entries.map Prod.fst).Nodup) (h : (name, tree) ∈ entries) : entries.lookup name = some tree := by
  obtain ⟨front, behind, rfl⟩ := List.append_of_mem h
  refine List.lookup_eq_some_iff.2 ⟨front, behind, rfl, fun entry hentry => ?_⟩
  rw [List.map_append, List.map_cons, List.nodup_append] at hnodup
  exact bne_iff_ne.2 (Ne.symm (hnodup.2.2 _ (List.mem_map_of_mem hentry) _ List.mem_cons_self))

theorem map_fst_setEntry (name : String) (tree : FileTree) (entries : List (String × FileTree)) :
    (setEntry name tree entries).map Prod.fst =
      if name ∈ entries.map Prod.fst then entries.map Prod.fst else entries.map Prod.fst ++ [name] := by
  induction entries with
  | nil => rfl
  | cons entry entries ih =>
    rw [setEntry]
    by_cases h : entry.1 = name
    · rw [if_pos h, List.map_cons, List.map_cons, h, if_pos List.mem_cons_self]
    · rw [if_neg h, List.map_cons, List.map_cons, ih]
      by_cases hmem : name ∈ entries.map Prod.fst
      · rw [if_pos hmem, if_pos (List.mem_cons_of_mem _ hmem)]
      · rw [if_neg hmem, if_neg (by simpa [Ne.symm h] using hmem), List.cons_append]

theorem mem_setEntry {name : String} {tree : FileTree} {entries : List (String × FileTree)} {entry : String × FileTree}
    (h : entry ∈ setEntry name tree entries) : entry = (name, tree) ∨ entry ∈ entries := by
  induction entries with
  | nil => exact .inl (List.mem_singleton.1 h)
  | cons first entries ih =>
    rw [setEntry] at h
    split at h
    · rcases List.mem_cons.1 h with rfl | h
      · exact .inl rfl
      · exact .inr (List.mem_cons_of_mem _ h)
    · rcases List.mem_cons.1 h with rfl | h
      · exact .inr List.mem_cons_self
      · exact (ih h).imp id (List.mem_cons_of_mem _)

theorem Sound.setEntry {access : Access} {entries : List (String × FileTree)} (h : Sound (.directory access entries))
    {name : String} {tree : FileTree} (hname : IsName name) (htree : Sound tree) :
    Sound (.directory access (setEntry name tree entries)) := by
  cases h with
  | directory hnodup hnames htrees =>
    refine .directory ?_ (fun entry hentry => ?_) fun entry hentry => ?_
    · rw [map_fst_setEntry]
      split
      · exact hnodup
      · next hnew =>
        rw [List.nodup_append]
        refine ⟨hnodup, List.nodup_singleton _, fun a ha b hb => ?_⟩
        rw [List.mem_singleton.1 hb]
        exact ne_of_mem_of_not_mem ha hnew
    · rcases mem_setEntry hentry with rfl | hentry
      · exact hname
      · exact hnames entry hentry
    · rcases mem_setEntry hentry with rfl | hentry
      · exact htree
      · exact htrees entry hentry

/-- A tree stays sound when something sound is put into it under names. -/
theorem Sound.put {n root : FileTree} (hn : Sound n) (hroot : Sound root) {place : List String}
    (hplace : ∀ name ∈ place, IsName name) : Sound (put n root place) := by
  induction place generalizing root with
  | nil =>
    unfold FileTree.put
    exact hn
  | cons name place ih =>
    rw [List.forall_mem_cons] at hplace
    cases root with
    | file access content => exact hroot
    | directory access entries =>
      have hbelow : Sound ((entries.lookup name).getD (.directory .full [])) := by
        cases hlookup : entries.lookup name with
        | none => exact sound_empty .full
        | some tree =>
          cases hroot with
          | directory hnodup hnames htrees => exact htrees _ (mem_of_lookup hlookup)
      exact hroot.setEntry hplace.1 (ih hbelow hplace.2)

theorem Sound.of_lookup {access : Access} {entries : List (String × FileTree)} (h : Sound (.directory access entries))
    {name : String} {tree : FileTree} (hlookup : entries.lookup name = some tree) : IsName name ∧ Sound tree := by
  obtain ⟨-, hnames, htrees⟩ := sound_directory_iff.1 h
  have hmem := mem_of_lookup hlookup
  exact ⟨hnames _ hmem, htrees _ hmem⟩

/-- All names on the way to a place of a sound tree are names, and what stands there is sound. -/
theorem Sound.of_get? {root tree : FileTree} (hsound : Sound root) {place : List String}
    (h : root.get? place = some tree) : (∀ name ∈ place, IsName name) ∧ Sound tree := by
  induction place generalizing root with
  | nil =>
    cases h
    exact ⟨by simp, hsound⟩
  | cons name place ih =>
    cases root with
    | file access content => cases h
    | directory access entries =>
      rw [get?] at h
      split at h
      · next below hlookup =>
        obtain ⟨hname, hbelow⟩ := hsound.of_lookup hlookup
        obtain ⟨hnames, htree⟩ := ih hbelow h
        exact ⟨List.forall_mem_cons.2 ⟨hname, hnames⟩, htree⟩
      · cases h

/-! ## Listings -/

/-- Whether anyone can look at an entry of a directory whose path has `room` bytes in front of the name. -/
def Looks (access : Access) (room : Nat) (name : String) : Prop :=
  access.enter = true ∧ room + name.utf8ByteSize < Path.maxLength

/-- What a listing of a tree holds: the way to each file, through directories that can be listed. An entry at which
nobody can look counts as a file. -/
inductive Listed : Nat → FileTree → List String → Prop
  | file {room : Nat} {access : Access} {content : File} : Listed room (.file access content) []
  | inside {room : Nat} {access : Access} {entries : List (String × FileTree)} {name : String} {tree : FileTree}
      {q : List String} : access.read = true → entries.lookup name = some tree → Looks access room name →
      Listed (room + name.utf8ByteSize + 1) tree q → Listed room (.directory access entries) (name :: q)
  | unseen {room : Nat} {access : Access} {entries : List (String × FileTree)} {name : String} {tree : FileTree} :
      access.read = true → entries.lookup name = some tree → ¬ Looks access room name →
      Listed room (.directory access entries) [name]

/-- The way to a directory that a listing comes to and that cannot be listed. -/
inductive Blocked : Nat → FileTree → List String → Prop
  | here {room : Nat} {access : Access} {entries : List (String × FileTree)} : access.read = false →
      Blocked room (.directory access entries) []
  | inside {room : Nat} {access : Access} {entries : List (String × FileTree)} {name : String} {tree : FileTree}
      {q : List String} : access.read = true → entries.lookup name = some tree → Looks access room name →
      Blocked (room + name.utf8ByteSize + 1) tree q → Blocked room (.directory access entries) (name :: q)

theorem Listed.ne_nil {room : Nat} {tree : FileTree} {q : List String} (h : Listed room tree q)
    (hdirectory : tree.isDirectory = true) : q ≠ [] := by
  cases h with
  | file => cases hdirectory
  | inside => exact List.cons_ne_nil _ _
  | unseen => exact List.cons_ne_nil _ _

/-- What is listed is there. -/
theorem Listed.exists_get? {room : Nat} {tree : FileTree} {q : List String} (h : Listed room tree q) :
    ∃ leaf, tree.get? q = some leaf := by
  induction h with
  | file => exact ⟨_, rfl⟩
  | inside _ hlookup _ _ ih =>
    obtain ⟨leaf, hleaf⟩ := ih
    exact ⟨leaf, by rw [get?, hlookup]; exact hleaf⟩
  | unseen _ hlookup _ => exact ⟨_, by rw [get?, hlookup]; rfl⟩

/-- Where a listing is blocked, there is a directory that cannot be listed. -/
theorem Blocked.exists_node {room : Nat} {tree : FileTree} {q : List String} (h : Blocked room tree q) :
    ∃ access, tree.nodeAt q = some (.directory access []) ∧ access.read = false := by
  induction h with
  | here hread => exact ⟨_, rfl, hread⟩
  | inside _ hlookup _ _ ih =>
    obtain ⟨access, hnode, hread⟩ := ih
    exact ⟨access, by rw [nodeAt, get?, hlookup]; exact hnode, hread⟩

/-- A file to which one can get by a path that is short enough is listed, or the listing is blocked on the way. -/
theorem listed_or_blocked {tree leaf : FileTree} {q : List String} (hget : tree.get? q = some leaf)
    (hleaf : leaf.isDirectory = false) (hpass : CanPass tree [] q) {room : Nat}
    (hroom : ∀ front name, front ++ [name] <+: q →
      room + (Path.ofPieces (front ++ [name])).utf8ByteSize < Path.maxLength) :
    Listed room tree q ∨ ∃ front name, front ++ [name] <+: q ∧ Blocked room tree front := by
  induction q generalizing tree room with
  | nil =>
    cases hget
    cases leaf with
    | file access content => exact .inl .file
    | directory access entries => cases hleaf
  | cons name q ih =>
    obtain ⟨access, entries, htree⟩ := exists_directory_of_get? (show tree.get? ([] ++ name :: q) = some leaf from hget)
    cases Option.some.inj htree
    obtain ⟨access', hnode, henter⟩ := hpass [] name ⟨q, rfl⟩
    obtain ⟨rfl, -⟩ := directory.inj (Option.some.inj hnode)
    by_cases hread : access.read = true
    · rw [get?] at hget
      split at hget
      · next below hlookup =>
        have hlooks : Looks access room name := ⟨henter, by simpa [Path.ofPieces_singleton] using hroom [] name ⟨q, rfl⟩⟩
        have hbelow : CanPass below [] q := by
          intro front last hfront
          obtain ⟨access, hnode, henter⟩ := hpass (name :: front) last (List.cons_prefix_cons.2 ⟨rfl, hfront⟩)
          rw [List.nil_append, nodeAt, get?, hlookup] at hnode
          exact ⟨access, hnode, henter⟩
        have hshorter : ∀ front last, front ++ [last] <+: q → room + name.utf8ByteSize + 1 +
            (Path.ofPieces (front ++ [last])).utf8ByteSize < Path.maxLength := by
          intro front last hfront
          have hlonger := hroom (name :: front) last (List.cons_prefix_cons.2 ⟨rfl, hfront⟩)
          rw [List.cons_append, Path.utf8ByteSize_ofPieces_cons name (by simp)] at hlonger
          omega
        rcases ih hget hbelow hshorter with hlisted | ⟨front, last, hfront, hblocked⟩
        · exact .inl (.inside hread hlookup hlooks hlisted)
        · exact .inr ⟨name :: front, last, List.cons_prefix_cons.2 ⟨rfl, hfront⟩,
            .inside hread hlookup hlooks hblocked⟩
      · cases hget
    · exact .inr ⟨[], name, ⟨q, rfl⟩, .here (Bool.not_eq_true _ ▸ hread)⟩

/-! ## Walks -/

theorem mem_sortEntries {α : Type} {entries : List (String × α)} {entry : String × α} :
    entry ∈ sortEntries entries ↔ entry ∈ entries := (List.mergeSort_perm _ _).mem_iff

/-- What a walk takes from an entry of a directory. -/
def walkBelow (lenient canEnter : Bool) (room : Nat) (entry : String × FileTree) :
    Except (List String) (List (List String)) :=
  if canEnter && room + entry.1.utf8ByteSize < Path.maxLength then
    match walk lenient (room + entry.1.utf8ByteSize + 1) entry.2 with
    | .ok places => .ok places
    | .error place => if lenient then .ok [] else .error place
  else .ok [[]]

theorem walkEntries_eq (lenient canEnter : Bool) (room : Nat) (entries : List (String × FileTree)) :
    walkEntries lenient canEnter room entries =
      entries.map fun entry => (entry.1, walkBelow lenient canEnter room entry) := by
  induction entries with
  | nil => rw [walkEntries, List.map_nil]
  | cons entry entries ih =>
    rw [walkEntries, ih, List.map_cons]
    rfl

theorem walk_directory (lenient : Bool) (room : Nat) {access : Access} (entries : List (String × FileTree))
    (hread : access.read = true) : walk lenient room (.directory access entries) =
      gather (sortEntries (entries.map fun entry => (entry.1, walkBelow lenient access.enter room entry))) := by
  rw [walk, if_pos hread, walkEntries_eq]

theorem read_of_walk {lenient : Bool} {room : Nat} {access : Access} {entries : List (String × FileTree)}
    {places : List (List String)} (h : walk lenient room (.directory access entries) = .ok places) :
    access.read = true := by
  rw [walk] at h
  split at h
  · next hread => exact hread
  · cases h

theorem walkBelow_of_looks {lenient : Bool} {access : Access} {room : Nat} {name : String} (tree : FileTree)
    (h : Looks access room name) : walkBelow lenient access.enter room (name, tree) =
      match walk lenient (room + name.utf8ByteSize + 1) tree with
      | .ok places => .ok places
      | .error place => if lenient then .ok [] else .error place := by
  have hlooks : (access.enter && decide (room + name.utf8ByteSize < Path.maxLength)) = true := by
    rw [h.1, Bool.true_and, decide_eq_true h.2]
  exact if_pos hlooks

theorem walkBelow_of_not_looks {lenient : Bool} {access : Access} {room : Nat} {name : String} (tree : FileTree)
    (h : ¬ Looks access room name) : walkBelow lenient access.enter room (name, tree) = .ok [[]] := by
  refine if_neg fun hlooks => h ?_
  rw [Bool.and_eq_true, decide_eq_true_eq] at hlooks
  exact hlooks

/-- What a walk finds below an entry at which one can look. -/
theorem walkBelow_eq_ok {lenient : Bool} {access : Access} {room : Nat} {name : String} {tree : FileTree}
    {inner : List (List String)} (hlooks : Looks access room name)
    (h : walkBelow lenient access.enter room (name, tree) = .ok inner) :
    walk lenient (room + name.utf8ByteSize + 1) tree = .ok inner ∨
      lenient = true ∧ inner = [] ∧ ∃ place, walk lenient (room + name.utf8ByteSize + 1) tree = .error place := by
  rw [walkBelow_of_looks tree hlooks] at h
  split at h
  · next hplaces => exact .inl (hplaces.trans h)
  · next place hplace =>
    split at h
    · next hlenient =>
      cases h
      exact .inr ⟨hlenient, rfl, place, hplace⟩
    · cases h

section

variable {l : List (String × Except (List String) (List (List String)))} {places : List (List String)}

theorem mem_gather (h : gather l = .ok places) {q : List String} :
    q ∈ places ↔ ∃ name inner below, (name, .ok inner) ∈ l ∧ below ∈ inner ∧ q = name :: below := by
  induction l generalizing places with
  | nil =>
    cases h
    simp
  | cons first l ih =>
    obtain ⟨name, _ | inner⟩ := first
    · cases h
    · rw [gather] at h
      cases hrest : gather l with
      | error place =>
        rw [hrest] at h
        cases h
      | ok others =>
        rw [hrest] at h
        cases h
        rw [List.mem_append, List.mem_map, ih hrest]
        constructor
        · rintro (⟨below, hbelow, rfl⟩ | ⟨name', inner', below, hmem, hbelow, rfl⟩)
          · exact ⟨name, inner, below, List.mem_cons_self, hbelow, rfl⟩
          · exact ⟨name', inner', below, List.mem_cons_of_mem _ hmem, hbelow, rfl⟩
        · rintro ⟨name', inner', below, hmem, hbelow, rfl⟩
          rcases List.mem_cons.1 hmem with heq | hmem
          · obtain ⟨rfl, hinner⟩ := Prod.mk.inj heq
            obtain rfl := Except.ok.inj hinner
            exact .inl ⟨below, hbelow, rfl⟩
          · exact .inr ⟨name', inner', below, hmem, hbelow, rfl⟩

theorem not_error_of_gather (h : gather l = .ok places) {name : String} {place : List String} :
    (name, .error place) ∉ l := by
  induction l generalizing places with
  | nil => exact List.not_mem_nil
  | cons first l ih =>
    obtain ⟨name', _ | inner⟩ := first
    · cases h
    · rw [gather] at h
      cases hrest : gather l with
      | error place' =>
        rw [hrest] at h
        cases h
      | ok others =>
        intro hmem
        rcases List.mem_cons.1 hmem with heq | hmem
        · cases heq
        · exact ih hrest hmem

theorem exists_of_gather_eq_error {place : List String} (h : gather l = .error place) :
    ∃ name below, (name, .error below) ∈ l ∧ place = name :: below := by
  induction l generalizing place with
  | nil => cases h
  | cons first l ih =>
    obtain ⟨name, below | inner⟩ := first
    · cases h
      exact ⟨name, below, List.mem_cons_self, rfl⟩
    · rw [gather] at h
      cases hrest : gather l with
      | ok others =>
        rw [hrest] at h
        cases h
      | error place' =>
        rw [hrest] at h
        cases h
        obtain ⟨name', below, hmem, heq⟩ := ih hrest
        exact ⟨name', below, List.mem_cons_of_mem _ hmem, heq⟩

end

/-- A lenient walk over a directory that can be listed does not fail. -/
theorem exists_walk_lenient (room : Nat) {access : Access} (entries : List (String × FileTree))
    (hread : access.read = true) : ∃ places, walk true room (.directory access entries) = .ok places := by
  cases h : walk true room (.directory access entries) with
  | ok places => exact ⟨places, rfl⟩
  | error place =>
    rw [walk_directory true room entries hread] at h
    obtain ⟨name, below, hmem, -⟩ := exists_of_gather_eq_error h
    obtain ⟨entry, -, heq⟩ := List.mem_map.1 (mem_sortEntries.1 hmem)
    obtain ⟨-, heq⟩ := Prod.mk.inj heq
    unfold walkBelow at heq
    split at heq
    · split at heq <;> cases heq
    · cases heq

/-- A lenient walk fails only at the tree itself, and then it lists nothing. -/
theorem not_listed_of_walk_lenient {room : Nat} {tree : FileTree} {place : List String}
    (h : walk true room tree = .error place) (q : List String) : ¬ Listed room tree q := by
  cases tree with
  | file access content => cases h
  | directory access entries =>
    intro hlisted
    obtain ⟨places, hplaces⟩ := exists_walk_lenient room entries (by cases hlisted <;> assumption)
    rw [hplaces] at h
    cases h

/-- A walk lists what is to be listed, and nothing else. -/
theorem mem_walk_iff {lenient : Bool} {room : Nat} {tree : FileTree} (hsound : Sound tree)
    {places : List (List String)} (h : walk lenient room tree = .ok places) {q : List String} :
    q ∈ places ↔ Listed room tree q := by
  induction q generalizing room tree places with
  | nil =>
    cases tree with
    | file access content =>
      cases h
      simp [Listed.file]
    | directory access entries =>
      rw [walk_directory lenient room entries (read_of_walk h)] at h
      constructor
      · intro hq
        obtain ⟨_, _, _, -, -, heq⟩ := (mem_gather h).1 hq
        cases heq
      · intro hlisted
        exact absurd rfl (hlisted.ne_nil rfl)
  | cons name q ih =>
    cases tree with
    | file access content =>
      cases h
      constructor
      · intro hq
        cases List.mem_singleton.1 hq
      · intro hlisted
        cases hlisted
    | directory access entries =>
      have hread := read_of_walk h
      obtain ⟨hnodup, -, -⟩ := sound_directory_iff.1 hsound
      rw [walk_directory lenient room entries hread] at h
      -- the entry with the name, and what the walk takes from it
      have hentry : name :: q ∈ places ↔ ∃ tree inner, entries.lookup name = some tree ∧
          walkBelow lenient access.enter room (name, tree) = .ok inner ∧ q ∈ inner := by
        rw [mem_gather h]
        constructor
        · rintro ⟨_, inner, _, hmem, hbelow, heq⟩
          obtain ⟨rfl, rfl⟩ := List.cons.inj heq
          obtain ⟨⟨_, tree⟩, hentry, heq⟩ := List.mem_map.1 (mem_sortEntries.1 hmem)
          obtain ⟨rfl, hinner⟩ := Prod.mk.inj heq
          exact ⟨tree, inner, lookup_of_mem hnodup hentry, hinner, hbelow⟩
        · rintro ⟨tree, inner, hlookup, hinner, hbelow⟩
          refine ⟨name, inner, q, mem_sortEntries.2 (List.mem_map.2 ⟨_, mem_of_lookup hlookup, ?_⟩), hbelow, rfl⟩
          rw [hinner]
      rw [hentry]
      constructor
      · rintro ⟨tree, inner, hlookup, hinner, hbelow⟩
        by_cases hlooks : Looks access room name
        · rcases walkBelow_eq_ok hlooks hinner with hwalk | ⟨-, rfl, -⟩
          · exact .inside hread hlookup hlooks ((ih (hsound.of_lookup hlookup).2 hwalk).1 hbelow)
          · cases hbelow
        · rw [walkBelow_of_not_looks tree hlooks] at hinner
          cases hinner
          obtain rfl := List.mem_singleton.1 hbelow
          exact .unseen hread hlookup hlooks
      · intro hlisted
        cases hlisted with
        | @inside _ _ _ _ tree _ _ hlookup hlooks hbelow =>
          have hmem : (name, walkBelow lenient access.enter room (name, tree)) ∈ sortEntries (entries.map fun entry =>
              (entry.1, walkBelow lenient access.enter room entry)) :=
            mem_sortEntries.2 (List.mem_map.2 ⟨_, mem_of_lookup hlookup, rfl⟩)
          cases hinner : walkBelow lenient access.enter room (name, tree) with
          | error place =>
            rw [hinner] at hmem
            exact absurd hmem (not_error_of_gather h)
          | ok inner =>
            refine ⟨tree, inner, hlookup, hinner, ?_⟩
            rcases walkBelow_eq_ok hlooks hinner with hwalk | ⟨rfl, -, place, hplace⟩
            · exact (ih (hsound.of_lookup hlookup).2 hwalk).2 hbelow
            · exact absurd hbelow (not_listed_of_walk_lenient hplace q)
        | @unseen _ _ _ _ tree _ hlookup hlooks =>
          exact ⟨tree, [[]], hlookup, walkBelow_of_not_looks tree hlooks, List.mem_singleton_self _⟩

/-- Where a walk that is not lenient fails, it is blocked. -/
theorem blocked_of_walk {room : Nat} {tree : FileTree} (hsound : Sound tree) {place : List String}
    (h : walk false room tree = .error place) : Blocked room tree place := by
  induction place generalizing room tree with
  | nil =>
    cases tree with
    | file access content => cases h
    | directory access entries =>
      by_cases hread : access.read = true
      · rw [walk_directory false room entries hread] at h
        obtain ⟨_, _, -, heq⟩ := exists_of_gather_eq_error h
        cases heq
      · exact .here (Bool.not_eq_true _ ▸ hread)
  | cons name place ih =>
    cases tree with
    | file access content => cases h
    | directory access entries =>
      obtain ⟨hnodup, -, -⟩ := sound_directory_iff.1 hsound
      by_cases hread : access.read = true
      · rw [walk_directory false room entries hread] at h
        obtain ⟨_, _, hmem, heq⟩ := exists_of_gather_eq_error h
        obtain ⟨rfl, rfl⟩ := List.cons.inj heq
        obtain ⟨⟨first, tree⟩, hentry, heq⟩ := List.mem_map.1 (mem_sortEntries.1 hmem)
        obtain ⟨rfl, hwalk⟩ := Prod.mk.inj heq
        have hlookup := lookup_of_mem hnodup hentry
        by_cases hlooks : Looks access room first
        · rw [walkBelow_of_looks tree hlooks] at hwalk
          split at hwalk
          · cases hwalk
          · next hplace =>
            cases hwalk
            exact .inside hread hlookup hlooks (ih (hsound.of_lookup hlookup).2 hplace)
        · rw [walkBelow_of_not_looks tree hlooks] at hwalk
          cases hwalk
      · rw [walk, if_neg hread] at h
        cases h

/-- A walk that is not lenient does not succeed where it is blocked. -/
theorem not_blocked_of_walk {room : Nat} {tree : FileTree} {places : List (List String)}
    (h : walk false room tree = .ok places) (q : List String) : ¬ Blocked room tree q := by
  intro hblocked
  induction hblocked generalizing places with
  | here hread =>
    rw [read_of_walk h] at hread
    cases hread
  | @inside room access entries name tree q hread hlookup hlooks _ ih =>
    rw [walk_directory false room entries hread] at h
    have hmem : (name, walkBelow false access.enter room (name, tree)) ∈ sortEntries (entries.map fun entry =>
        (entry.1, walkBelow false access.enter room entry)) :=
      mem_sortEntries.2 (List.mem_map.2 ⟨_, mem_of_lookup hlookup, rfl⟩)
    cases hwalk : walk false (room + name.utf8ByteSize + 1) tree with
    | ok places => exact ih hwalk
    | error place =>
      rw [walkBelow_of_looks tree hlooks, hwalk] at hmem
      exact not_error_of_gather h hmem

/-- A walk succeeds where it is not blocked. -/
theorem exists_walk {room : Nat} {tree : FileTree} (hsound : Sound tree) (h : ∀ q, ¬ Blocked room tree q) :
    ∃ places, walk false room tree = .ok places := by
  cases hwalk : walk false room tree with
  | ok places => exact ⟨places, rfl⟩
  | error place => exact absurd (blocked_of_walk hsound hwalk) (h place)

/-! ## The order of a walk -/

/-- The places are in ascending order: where two of them part, the one with the smaller name comes first. So the
entries of a directory are in the order of their names, and what is below an entry is in the place of the entry. -/
def Ascending (places : List (List String)) : Prop := places.Pairwise (List.Lex (· < ·))

theorem pairwise_sortEntries {α : Type} {entries : List (String × α)} (hnodup : (entries.map Prod.fst).Nodup) :
    (sortEntries entries).Pairwise fun a b => a.1 < b.1 := by
  have hle : (sortEntries entries).Pairwise fun a b => a.1 ≤ b.1 := by
    have htrans : ∀ a b c : String × α, decide (a.1 ≤ b.1) = true → decide (b.1 ≤ c.1) = true →
        decide (a.1 ≤ c.1) = true :=
      fun a b c hab hbc => decide_eq_true (String.le_trans (of_decide_eq_true hab) (of_decide_eq_true hbc))
    have htotal : ∀ a b : String × α, (decide (a.1 ≤ b.1) || decide (b.1 ≤ a.1)) = true := fun a b => by
      simpa using String.le_total a.1 b.1
    exact (List.pairwise_mergeSort htrans htotal entries).imp of_decide_eq_true
  have hne : (sortEntries entries).Pairwise fun a b => a.1 ≠ b.1 :=
    List.pairwise_map.1 (((List.mergeSort_perm entries _).map Prod.fst).nodup_iff.2 hnodup)
  exact hle.imp₂ (fun _ _ => lt_of_le_of_ne) hne

theorem ascending_of_gather {l : List (String × Except (List String) (List (List String)))}
    {places : List (List String)} (hnames : l.Pairwise fun a b => a.1 < b.1)
    (hinner : ∀ name inner, (name, .ok inner) ∈ l → Ascending inner) (h : gather l = .ok places) :
    Ascending places := by
  induction l generalizing places with
  | nil =>
    cases h
    exact .nil
  | cons first l ih =>
    obtain ⟨name, _ | inner⟩ := first
    · cases h
    · rw [gather] at h
      cases hrest : gather l with
      | error place =>
        rw [hrest] at h
        cases h
      | ok others =>
        rw [hrest] at h
        cases h
        obtain ⟨hfirst, hnames⟩ := List.pairwise_cons.1 hnames
        refine List.pairwise_append.2 ⟨List.pairwise_map.2 ?_, ?_, fun a ha b hb => ?_⟩
        · exact (hinner name inner List.mem_cons_self).imp .cons
        · exact ih hnames (fun name' inner' hmem => hinner name' inner' (List.mem_cons_of_mem _ hmem)) hrest
        · -- what follows is below the other entries, whose names are greater
          obtain ⟨below, -, rfl⟩ := List.mem_map.1 ha
          obtain ⟨name', inner', below', hmem, -, rfl⟩ := (mem_gather hrest).1 hb
          exact .rel (hfirst _ hmem)

/-- A walk over a sound tree lists in ascending order. -/
theorem ascending_of_walk {lenient : Bool} {room : Nat} {tree : FileTree} (hsound : Sound tree)
    {places : List (List String)} (h : walk lenient room tree = .ok places) : Ascending places := by
  induction hsound generalizing room places with
  | file access content =>
    cases h
    exact List.pairwise_singleton _ _
  | @directory access entries hnodup _ _ ih =>
    rw [walk_directory lenient room entries (read_of_walk h)] at h
    refine ascending_of_gather (pairwise_sortEntries ?_) (fun name inner hmem => ?_) h
    · rw [List.map_map]
      exact hnodup
    · obtain ⟨entry, hentry, heq⟩ := List.mem_map.1 (mem_sortEntries.1 hmem)
      obtain ⟨-, hwalk⟩ := Prod.mk.inj heq
      by_cases hlooks : Looks access room entry.1
      · rcases walkBelow_eq_ok hlooks hwalk with hwalk | ⟨-, rfl, -⟩
        · exact ih entry hentry hwalk
        · exact .nil
      · rw [walkBelow_of_not_looks entry.2 hlooks] at hwalk
        cases hwalk
        exact List.pairwise_singleton _ _

/-- Ascending lists with the same places are the same. -/
theorem Ascending.ext {places places' : List (List String)} (h : Ascending places) (h' : Ascending places')
    (hmem : ∀ q, q ∈ places ↔ q ∈ places') : places = places' :=
  List.Pairwise.eq_of_mem_iff h h' hmem

theorem Ascending.nodup {places : List (List String)} (h : Ascending places) : places.Nodup :=
  h.imp fun hlex heq => by
    subst heq
    exact Std.Irrefl.irrefl _ hlex

/-- What is listed of a directory has pieces that are names. -/
theorem Listed.pieces_eq {room : Nat} {tree : FileTree} {q : List String} (h : Listed room tree q)
    (hsound : Sound tree) (hdirectory : tree.isDirectory = true) : Path.pieces (Path.ofPieces q) = q := by
  obtain ⟨leaf, hget⟩ := h.exists_get?
  exact Path.pieces_ofPieces_of_isName (h.ne_nil hdirectory) (hsound.of_get? hget).1

/-- The names that are listed of a directory, in pieces, are the places. -/
theorem map_pieces_of_walk {lenient : Bool} {room : Nat} {tree : FileTree} (hsound : Sound tree)
    (hdirectory : tree.isDirectory = true) {places : List (List String)} (h : walk lenient room tree = .ok places) :
    (places.map Path.ofPieces).map Path.pieces = places := by
  rw [List.map_map]
  refine (List.map_congr_left fun q hq => ?_).trans (List.map_id _)
  exact ((mem_walk_iff hsound h).1 hq).pieces_eq hsound hdirectory

end FileTree

/-! ## Below a path -/

namespace FileSystem

open FileTree

variable {fs : FileSystem} {path : String}

theorem nodeAt_append {base : List String × FileTree} (hbase : fs.find path = .ok base) (q : List String) :
    fs.root.nodeAt (base.1 ++ q) = base.2.nodeAt q := by
  obtain ⟨-, hfollow, -⟩ := find_eq_ok_iff_follow.1 hbase
  rw [nodeAt, get?_append, (follow_eq_ok hfollow).2, Option.bind_some, nodeAt]

/-- What is found below something that was found. -/
theorem find_join_eq_ok_iff {base found : List String × FileTree} {entry : String} (hbase : fs.find path = .ok base)
    (hentry : Path.isAbsolute entry = false) (hplain : Path.IsPlain entry) :
    fs.find (Path.join path entry) = .ok found ↔ check (Path.join path entry) = .ok () ∧
      (∀ step ∈ Path.steps entry, Fits step) ∧ CanPass base.2 [] (Path.steps entry) ∧
      base.2.get? (Path.steps entry) = some found.2 ∧ found.1 = base.1 ++ Path.steps entry ∧
      Suits (Path.join path entry) found.2 := by
  obtain ⟨-, hfollow, -⟩ := find_eq_ok_iff_follow.1 hbase
  have hstart : fs.start (Path.join path entry) = fs.start path := by
    rw [start, start, Path.isAbsolute_join path hentry]
  have hget : fs.root.get? (base.1 ++ Path.steps entry) = base.2.get? (Path.steps entry) := by
    rw [FileTree.get?_append, (follow_eq_ok hfollow).2, Option.bind_some]
  have hpass : CanPass fs.root base.1 (Path.steps entry) ↔ CanPass base.2 [] (Path.steps entry) := by
    simp only [CanPass, nodeAt_append hbase, List.nil_append]
  have hway : follow fs.root (fs.start path) (Path.steps path ++ Path.steps entry) = .ok found ↔
      base.2.get? (Path.steps entry) = some found.2 ∧ found.1 = base.1 ++ Path.steps entry ∧
        (∀ step ∈ Path.steps entry, Fits step) ∧ CanPass base.2 [] (Path.steps entry) := by
    rw [follow_append_eq_ok_iff, hfollow, ← hget, ← hpass, ← follow_eq_ok_iff hplain]
    constructor
    · rintro ⟨between, hbetween, h⟩
      cases hbetween
      exact h
    · intro h
      exact ⟨base, rfl, h⟩
  rw [find_eq_ok_iff_follow, hstart, Path.steps_join path hentry, hway]
  constructor
  · rintro ⟨hcheck, ⟨hfound, hplace, hfits, hpass⟩, hsuits⟩
    exact ⟨hcheck, hfits, hpass, hfound, hplace, hsuits⟩
  · rintro ⟨hcheck, hfits, hpass, hfound, hplace, hsuits⟩
    exact ⟨hcheck, ⟨hfound, hplace, hfits, hpass⟩, hsuits⟩

theorem filesBelow_eq_ok_iff {lenient : Bool} {names : List String} :
    fs.filesBelow lenient path = .ok names ↔ ∃ found places, fs.find path = .ok found ∧
      found.2.isDirectory = true ∧ found.2.walk lenient (Path.room path) = .ok places ∧
      places.map Path.ofPieces = names := by
  unfold filesBelow
  cases hfind : fs.find path with
  | error fault => simp
  | ok found =>
    obtain ⟨place, tree⟩ := found
    dsimp only
    cases hdirectory : tree.isDirectory with
    | false => simp [hdirectory]
    | true =>
      cases hwalk : tree.walk lenient (Path.room path) with
      | error place => simp [hwalk]
      | ok places => simp [hdirectory, hwalk]

/-- A directory lists a name: the path of a file below it, or of something at which nobody can look. -/
def Lists (fs : FileSystem) (path name : String) : Prop :=
  ∃ place tree q, fs.find path = .ok (place, tree) ∧ tree.isDirectory = true ∧ tree.Listed (Path.room path) q ∧
    name = Path.ofPieces q

theorem mem_filesBelow_iff (hsound : fs.root.Sound) {lenient : Bool} {names : List String}
    (h : fs.filesBelow lenient path = .ok names) {name : String} : name ∈ names ↔ fs.Lists path name := by
  obtain ⟨base, places, hbase, hdirectory, hwalk, rfl⟩ := filesBelow_eq_ok_iff.1 h
  have hbelow := (hsound.of_get? (find_destination hbase).2).2
  rw [List.mem_map]
  constructor
  · rintro ⟨q, hq, rfl⟩
    exact ⟨base.1, base.2, q, hbase, hdirectory, (mem_walk_iff hbelow hwalk).1 hq, rfl⟩
  · rintro ⟨place, tree, q, hfind, -, hlisted, rfl⟩
    obtain rfl := Except.ok.inj (hbase.symm.trans hfind)
    exact ⟨q, (mem_walk_iff hbelow hwalk).2 hlisted, rfl⟩

theorem ascending_of_filesBelow (hsound : fs.root.Sound) {lenient : Bool} {names : List String}
    (h : fs.filesBelow lenient path = .ok names) : Ascending (names.map Path.pieces) := by
  obtain ⟨base, places, hbase, hdirectory, hwalk, rfl⟩ := filesBelow_eq_ok_iff.1 h
  have hbelow := (hsound.of_get? (find_destination hbase).2).2
  rw [map_pieces_of_walk hbelow hdirectory hwalk]
  exact ascending_of_walk hbelow hwalk

/-- A listing is determined by what it holds. -/
theorem eq_of_ascending {names names' : List String} (h : Ascending (names.map Path.pieces))
    (h' : Ascending (names'.map Path.pieces)) (hmem : ∀ name, name ∈ names ↔ name ∈ names') : names = names' := by
  refine List.map_injective_iff.2 (fun _ _ => Path.eq_of_pieces_eq) (h.ext h' fun q => ?_)
  rw [List.mem_map, List.mem_map]
  simp only [hmem]

/-- The files below a directory, in ascending order. A directory that is missing has none. -/
structure Listing (fs : FileSystem) (path : String) (names : List String) : Prop where
  ascending : Ascending (names.map Path.pieces)
  mem_iff (name : String) : name ∈ names ↔ fs.Lists path name

theorem listing_of_filesBelow (hsound : fs.root.Sound) {lenient : Bool} {names : List String}
    (h : fs.filesBelow lenient path = .ok names) : fs.Listing path names :=
  ⟨ascending_of_filesBelow hsound h, fun _ => mem_filesBelow_iff hsound h⟩

theorem isDirectory_eq_true_iff :
    fs.isDirectory path = true ↔ ∃ found, fs.find path = .ok found ∧ found.2.isDirectory = true := by
  unfold isDirectory
  cases fs.find path <;> simp

theorem listing_nil_of_not_isDirectory (h : ¬ fs.isDirectory path = true) : fs.Listing path [] := by
  refine ⟨.nil, fun name => ⟨fun hname => absurd hname List.not_mem_nil, ?_⟩⟩
  rintro ⟨place, tree, q, hfind, hdirectory, -⟩
  exact absurd (isDirectory_eq_true_iff.2 ⟨_, hfind, hdirectory⟩) h

/-- Whatever is come to below a directory can be listed. -/
def Unblocked (fs : FileSystem) (path : String) : Prop :=
  ∀ place tree, fs.find path = .ok (place, tree) → ∀ q, ¬ tree.Blocked (Path.room path) q

theorem unblocked_of_filesBelow {names : List String} (h : fs.filesBelow false path = .ok names) :
    fs.Unblocked path := by
  obtain ⟨found, places, hfind, -, hwalk, -⟩ := filesBelow_eq_ok_iff.1 h
  intro place tree hfind' q
  obtain rfl := Except.ok.inj (hfind.symm.trans hfind')
  exact not_blocked_of_walk hwalk q

theorem unblocked_of_not_isDirectory (h : ¬ fs.isDirectory path = true) : fs.Unblocked path := by
  intro place tree hfind q hblocked
  refine h (isDirectory_eq_true_iff.2 ⟨_, hfind, ?_⟩)
  cases hblocked <;> rfl

/-- There is one listing of a directory. -/
theorem Listing.unique {names names' : List String} (h : fs.Listing path names) (h' : fs.Listing path names') :
    names = names' :=
  eq_of_ascending h.ascending h'.ascending fun name => (h.mem_iff name).trans (h'.mem_iff name).symm

end FileSystem

end Registrar
