import Registrar.Proofs.Paths

/-!
# Programs that share a file system

What a program sees of the changes that others make meanwhile.

* `FileSystem.Extends` : a file system that has all directories of another, and new things only where they may be made;
* `FileSystem.Ahead` : moreover it has other files at some places only;
* `makeAlong_cases` : what one step of making directories can do;
* `ahead_makeAlong`, `ahead_write` : a program that makes directories and writes files gets ahead in this sense;
* `Writable`, `write_eq_ok` : where a file can be written. It is written there, and nowhere else;
* `Lockstep` : two runs that end in the same way, in file systems of which one is ahead;
* `lockstep_makeAlong`, `lockstep_write` : to make directories and to write a file ends in the same way in a file system
  that is ahead, if nothing was written on the way.
-/

namespace Registrar.FileSystem

open FileTree

/-! ## What others may change -/

/-- `fs'` has the directories of `fs`, and what is new in it stands in directories in which it could be made. -/
structure Extends (fs fs' : FileSystem) : Prop where
  workingDirectory : fs'.workingDirectory = fs.workingDirectory
  directories : KeepsDirectories fs.root fs'.root
  grown (place : List String) (name : String) : fs.root.nodeAt (place ++ [name]) = none →
    fs'.root.nodeAt (place ++ [name]) ≠ none →
      ∃ access, fs'.root.nodeAt place = some (.directory access []) ∧ access.enter = true ∧ access.write = true

/-- `fs'` differs from `fs` by more directories, which are `made`, and at places that are `written`. -/
structure Ahead (made written : List String → Prop) (fs fs' : FileSystem) : Prop extends Extends fs fs' where
  node (place : List String) : ¬ written place → fs.root.nodeAt place = fs'.root.nodeAt place ∨
    fs.root.nodeAt place = none ∧ fs'.root.nodeAt place = some (.directory .full []) ∧ made place

section

variable {made written written' : List String → Prop} {fs fs' fs'' : FileSystem}

theorem Extends.refl : Extends fs fs := ⟨rfl, fun _ _ h => h, fun _ _ hnone hsome => absurd hnone hsome⟩

theorem Extends.trans (h : Extends fs fs') (h' : Extends fs' fs'') : Extends fs fs'' := by
  refine ⟨h'.workingDirectory.trans h.workingDirectory,
    fun place access hnode => h'.directories place access (h.directories place access hnode),
    fun place name hnone hsome => ?_⟩
  by_cases hbetween : fs'.root.nodeAt (place ++ [name]) = none
  · exact h'.grown place name hbetween hsome
  · obtain ⟨access, hnode, hopen⟩ := h.grown place name hnone hbetween
    exact ⟨access, h'.directories place access hnode, hopen⟩

theorem Extends.start_eq (h : Extends fs fs') (path : String) : fs'.start path = fs.start path := by
  rw [start, start, h.workingDirectory]

theorem Extends.place_eq (h : Extends fs fs') (path : String) : fs'.place path = fs.place path :=
  congrArg (Path.place · path) h.workingDirectory

theorem Ahead.refl : Ahead made written fs fs := ⟨.refl, fun _ _ => .inl rfl⟩

theorem Ahead.trans (h : Ahead made written fs fs') (h' : Ahead made written fs' fs'') :
    Ahead made written fs fs'' := by
  refine ⟨h.toExtends.trans h'.toExtends, fun place hplace => ?_⟩
  rcases h.node place hplace with heq | ⟨hnone, hmade, hplace'⟩
  · rw [heq]
    exact h'.node place hplace
  · exact .inr ⟨hnone, h'.directories place .full hmade, hplace'⟩

theorem Ahead.mono (h : Ahead made written fs fs') (hwritten : ∀ place, written place → written' place) :
    Ahead made written' fs fs' :=
  ⟨h.toExtends, fun place hplace => h.node place (mt (hwritten place) hplace)⟩

theorem Ahead.eq_of_not_made (h : Ahead made written fs fs') {place : List String} (hwritten : ¬ written place)
    (hmade : ¬ made place) : fs.root.nodeAt place = fs'.root.nodeAt place := by
  rcases h.node place hwritten with heq | ⟨-, -, hplace⟩
  · exact heq
  · exact absurd hplace hmade

theorem Ahead.eq_of_ne_none (h : Ahead made written fs fs') {place : List String} (hwritten : ¬ written place)
    (hplace : fs.root.nodeAt place ≠ none) : fs.root.nodeAt place = fs'.root.nodeAt place := by
  rcases h.node place hwritten with heq | ⟨hnone, -⟩
  · exact heq
  · exact absurd hnone hplace

theorem Ahead.node?_eq (h : Ahead made written fs fs') {path : String} (hplain : Path.IsPlain path)
    (hwritten : ¬ written (fs.place path)) (hmade : ¬ made (fs.place path)) : fs.node? path = fs'.node? path :=
  node?_congr hplain h.workingDirectory h.directories (h.eq_of_not_made hwritten hmade)

end

/-! ## Putting a node -/

/-- A file system with a node at a place. -/
def withNode (fs : FileSystem) (n : FileTree) (place : List String) : FileSystem :=
  { fs with root := put n fs.root place }

/-- There is a directory to put a node in, in which it may be made if it is new, and no directory in its place. -/
structure Takes (fs : FileSystem) (place : List String) (name : String) : Prop where
  room : ∃ access, fs.root.nodeAt place = some (.directory access []) ∧ access.enter = true ∧
    (fs.root.nodeAt (place ++ [name]) = none → access.write = true)
  free : ¬ HasDirectory fs.root (place ++ [name])

section

variable {made written : List String → Prop} {fs fs' : FileSystem} {place : List String} {name : String} {n : FileTree}

theorem Takes.hasDirectory (h : fs.Takes place name) : HasDirectory fs.root place := by
  obtain ⟨access, hnode, -⟩ := h.room
  exact ⟨access, hnode⟩

theorem nodeAt_withNode (hn : n.node = n) (h : fs.Takes place name) (q : List String) :
    (fs.withNode n (place ++ [name])).root.nodeAt q = if q = place ++ [name] then some n else fs.root.nodeAt q :=
  nodeAt_put hn h.hasDirectory h.free q

theorem nodeAt_withNode_self (hn : n.node = n) (h : fs.Takes place name) :
    (fs.withNode n (place ++ [name])).root.nodeAt (place ++ [name]) = some n := by
  rw [nodeAt_withNode hn h, if_pos rfl]

theorem Takes.keepsDirectories (h : fs.Takes place name) (hn : n.node = n) :
    KeepsDirectories fs.root (fs.withNode n (place ++ [name])).root := by
  intro q access hnode
  rw [nodeAt_withNode hn h, if_neg, hnode]
  rintro rfl
  exact h.free ⟨access, hnode⟩

theorem extends_withNode (hn : n.node = n) (h : fs.Takes place name) :
    Extends fs (fs.withNode n (place ++ [name])) := by
  refine ⟨rfl, h.keepsDirectories hn, fun q last hnone hsome => ?_⟩
  rw [nodeAt_withNode hn h] at hsome
  split at hsome
  · next heq =>
    obtain ⟨rfl, hlast⟩ := List.append_inj' heq rfl
    obtain rfl := List.singleton_inj.1 hlast
    obtain ⟨access, hnode, henter, hwrite⟩ := h.room
    exact ⟨access, h.keepsDirectories hn q access hnode, henter, hwrite hnone⟩
  · exact absurd hnone hsome

theorem ahead_withDirectory (h : fs.Takes place name) (hmissing : fs.root.nodeAt (place ++ [name]) = none)
    (hmade : made (place ++ [name])) : Ahead made written fs (fs.withNode (.directory .full []) (place ++ [name])) := by
  refine ⟨extends_withNode rfl h, fun q _ => ?_⟩
  rw [nodeAt_withNode rfl h]
  by_cases hq : q = place ++ [name]
  · subst hq
    rw [if_pos rfl]
    exact .inr ⟨hmissing, rfl, hmade⟩
  · rw [if_neg hq]
    exact .inl rfl

theorem ahead_withNode (hn : n.node = n) (h : fs.Takes place name) :
    Ahead made (· = place ++ [name]) fs (fs.withNode n (place ++ [name])) := by
  refine ⟨extends_withNode hn h, fun q hq => ?_⟩
  rw [nodeAt_withNode hn h, if_neg hq]
  exact .inl rfl

/-- A directory is made that the other file system has. -/
theorem Ahead.withDirectory_left (h : Ahead made written fs fs') (htakes : fs.Takes place name)
    (hnext : fs'.root.nodeAt (place ++ [name]) = some (.directory .full [])) :
    Ahead made written (fs.withNode (.directory .full []) (place ++ [name])) fs' := by
  refine ⟨⟨h.workingDirectory, fun q access hnode => ?_, fun q last hnone hsome => ?_⟩, fun q hq => ?_⟩
  · rw [nodeAt_withNode rfl htakes] at hnode
    split at hnode
    · next hplace => rw [hplace, hnext, hnode]
    · exact h.directories q access hnode
  · rw [nodeAt_withNode rfl htakes] at hnone
    split at hnone
    · cases hnone
    · exact h.grown q last hnone hsome
  · rw [nodeAt_withNode rfl htakes]
    by_cases hplace : q = place ++ [name]
    · rw [if_pos hplace, hplace, hnext]
      exact .inl rfl
    · rw [if_neg hplace]
      exact h.node q hq

/-- The same node is put in both file systems. -/
theorem Ahead.withNode (h : Ahead made written fs fs') (hn : n.node = n) (htakes : fs.Takes place name)
    (htakes' : fs'.Takes place name) :
    Ahead made written (fs.withNode n (place ++ [name])) (fs'.withNode n (place ++ [name])) := by
  refine ⟨⟨h.workingDirectory, fun q access hnode => ?_, fun q last hnone hsome => ?_⟩, fun q hq => ?_⟩
  · rw [nodeAt_withNode hn htakes] at hnode
    rw [nodeAt_withNode hn htakes']
    split at hnode
    · next hplace => rw [if_pos hplace, hnode]
    · next hplace => rw [if_neg hplace, h.directories q access hnode]
  · rw [nodeAt_withNode hn htakes] at hnone
    split at hnone
    · cases hnone
    · next hplace =>
      rw [nodeAt_withNode hn htakes', if_neg hplace] at hsome
      obtain ⟨access, hnode, hopen⟩ := h.grown q last hnone hsome
      exact ⟨access, htakes'.keepsDirectories hn q access hnode, hopen⟩
  · rw [nodeAt_withNode hn htakes, nodeAt_withNode hn htakes']
    by_cases hplace : q = place ++ [name]
    · rw [if_pos hplace, if_pos hplace]
      exact .inl rfl
    · rw [if_neg hplace, if_neg hplace]
      exact h.node q hq

end

/-! ## Runs -/

/-- The file system that a run leaves. -/
def after {ε α : Type} : EStateM.Result ε FileSystem α → FileSystem
  | .ok _ fs => fs
  | .error _ fs => fs

/-- Whether a run gives a value. -/
def succeeds {ε α : Type} : EStateM.Result ε FileSystem α → Bool
  | .ok _ _ => true
  | .error _ _ => false

theorem eq_ok_of_succeeds {ε : Type} {r : EStateM.Result ε FileSystem Unit} (h : succeeds r = true) :
    r = .ok () (after r) := by
  cases r with
  | ok u fs => rfl
  | error e fs => cases h

/-- Two runs with the same result that leave related file systems. -/
inductive Lockstep (R : FileSystem → FileSystem → Prop) {ε α : Type} :
    EStateM.Result ε FileSystem α → EStateM.Result ε FileSystem α → Prop
  | ok {fs fs' : FileSystem} (a : α) : R fs fs' → Lockstep R (.ok a fs) (.ok a fs')
  | error {fs fs' : FileSystem} (e : ε) : R fs fs' → Lockstep R (.error e fs) (.error e fs')

theorem Lockstep.ok_or_error {R : FileSystem → FileSystem → Prop} {ε α : Type} {r r' : EStateM.Result ε FileSystem α}
    (h : Lockstep R r r') : (∃ a fs fs', r = .ok a fs ∧ r' = .ok a fs' ∧ R fs fs') ∨
      ∃ e fs fs', r = .error e fs ∧ r' = .error e fs' ∧ R fs fs' := by
  cases h with
  | ok a h => exact .inl ⟨a, _, _, rfl, rfl, h⟩
  | error e h => exact .inr ⟨e, _, _, rfl, rfl, h⟩

theorem after_adaptExcept {ε ε' α : Type} (f : ε → ε') (action : Action ε α) (fs : FileSystem) :
    after (action.adaptExcept f fs) = after (action fs) := by
  unfold EStateM.adaptExcept
  cases action fs <;> rfl

theorem Lockstep.adaptExcept {R : FileSystem → FileSystem → Prop} {ε ε' α : Type} (f : ε → ε') {action : Action ε α}
    {fs fs' : FileSystem} (h : Lockstep R (action fs) (action fs')) :
    Lockstep R (action.adaptExcept f fs) (action.adaptExcept f fs') := by
  unfold EStateM.adaptExcept
  rcases h.ok_or_error with ⟨a, s, s', hr, hr', h⟩ | ⟨e, s, s', hr, hr', h⟩
  · rw [hr, hr']
    exact .ok a h
  · rw [hr, hr']
    exact .error (f e) h

/-! ## Making directories -/

/-- One step of making directories, by what stands at its ends. -/
theorem makeAlong_cons {place steps : List String} {step : String} (fs : FileSystem) (hstep : step ≠ "..") :
    makeAlong place (step :: steps) fs =
      match fs.root.nodeAt place with
      | none => .error .missing fs
      | some (.file _ _) => .error .notDirectory fs
      | some (.directory access _) =>
        if access.enter then
          match fs.root.nodeAt (place ++ [step]) with
          | some n =>
            if n.isDirectory then makeAlong (place ++ [step]) steps fs
            else .error (if steps.isEmpty then .exists else .notDirectory) fs
          | none =>
            if Path.maxNameLength < step.utf8ByteSize then .error .nameTooLong fs
            else if access.write then
              makeAlong (place ++ [step]) steps (fs.withNode (.directory .full []) (place ++ [step]))
            else .error .denied fs
        else .error .denied fs := by
  rw [makeAlong]
  dsimp only
  cases hplace : fs.root.get? place with
  | none => rw [nodeAt_eq_none_iff.2 hplace]
  | some tree =>
    rw [nodeAt_of_get? hplace]
    cases tree with
    | file access content => rfl
    | directory access entries =>
      simp only [node, if_neg hstep]
      cases access.enter with
      | false => rfl
      | true =>
        simp only [Bool.not_true, Bool.false_eq_true, if_false, if_true]
        cases hnext : fs.root.get? (place ++ [step]) with
        | some tree =>
          rw [nodeAt_of_get? hnext]
          simp only [isDirectory_node]
        | none =>
          rw [nodeAt_eq_none_iff.2 hnext]
          cases access.write <;> simp [withNode]

/-- One step of making directories fails, goes up, goes to a directory that is there or makes one. -/
theorem makeAlong_cases (place : List String) (step : String) (steps : List String) (fs : FileSystem) :
    (∃ fault, makeAlong place (step :: steps) fs = .error fault fs) ∨
    (step = ".." ∧ makeAlong place (step :: steps) fs = makeAlong place.dropLast steps fs) ∨
    (step ≠ ".." ∧ HasDirectory fs.root (place ++ [step]) ∧
      makeAlong place (step :: steps) fs = makeAlong (place ++ [step]) steps fs) ∨
    (step ≠ ".." ∧ fs.root.nodeAt (place ++ [step]) = none ∧ Fits step ∧ fs.Takes place step ∧
      makeAlong place (step :: steps) fs =
        makeAlong (place ++ [step]) steps (fs.withNode (.directory .full []) (place ++ [step]))) := by
  by_cases hup : step = ".."
  · rw [makeAlong]
    dsimp only
    cases fs.root.get? place with
    | none => exact .inl ⟨_, rfl⟩
    | some tree =>
      cases tree with
      | file access content => exact .inl ⟨_, rfl⟩
      | directory access entries =>
        dsimp only
        cases access.enter with
        | false => exact .inl ⟨_, rfl⟩
        | true => exact .inr (.inl ⟨hup, by simp [hup]⟩)
  · rw [makeAlong_cons fs hup]
    cases hplace : fs.root.nodeAt place with
    | none => exact .inl ⟨_, rfl⟩
    | some above =>
      cases above with
      | file access content => exact .inl ⟨_, rfl⟩
      | directory access entries =>
        obtain rfl := entries_eq_nil_of_nodeAt hplace
        dsimp only
        by_cases henter : access.enter = true
        · rw [if_pos henter]
          cases hnext : fs.root.nodeAt (place ++ [step]) with
          | some n =>
            by_cases hdirectory : n.isDirectory = true
            · exact .inr (.inr (.inl ⟨hup, hasDirectory_of_nodeAt hnext hdirectory, by simp [hdirectory]⟩))
            · exact .inl ⟨_, if_neg hdirectory⟩
          | none =>
            by_cases hlong : Path.maxNameLength < step.utf8ByteSize
            · exact .inl ⟨_, if_pos hlong⟩
            · by_cases hwrite : access.write = true
              · exact .inr (.inr (.inr ⟨hup, rfl, Nat.not_lt.1 hlong,
                  ⟨⟨access, hplace, henter, fun _ => hwrite⟩, not_hasDirectory_of_none hnext⟩, by simp [hlong, hwrite]⟩))
              · exact .inl ⟨.denied, by simp only [if_neg hlong, if_neg hwrite]⟩
        · exact .inl ⟨_, if_neg henter⟩

/-- A place on the way from a directory, without that directory. -/
def OnWay (start steps place : List String) : Prop :=
  ∃ front step, front ++ [step] <+: steps ∧ place = start ++ (front ++ [step])

theorem OnWay.head (start : List String) (step : String) (steps : List String) :
    OnWay start (step :: steps) (start ++ [step]) :=
  ⟨[], step, ⟨steps, rfl⟩, rfl⟩

theorem OnWay.tail {start steps place : List String} {step : String} (h : OnWay (start ++ [step]) steps place) :
    OnWay start (step :: steps) place := by
  obtain ⟨front, last, hleads, rfl⟩ := h
  refine ⟨step :: front, last, ?_, by simp⟩
  rw [List.cons_append]
  exact List.prefix_cons_inj step |>.2 hleads

section

variable {made written : List String → Prop} {start steps : List String} {fs fs' : FileSystem}

/-- To make directories changes nothing else. -/
theorem ahead_makeAlong (hplain : ".." ∉ steps)
    (hmade : ∀ front step, OnWay start steps (front ++ [step]) → Fits step → made (front ++ [step])) :
    Ahead made written fs (after (makeAlong start steps fs)) := by
  induction steps generalizing start fs with
  | nil => exact .refl
  | cons step steps ih =>
    rw [List.mem_cons, not_or] at hplain
    have hrest (fs : FileSystem) : Ahead made written fs (after (makeAlong (start ++ [step]) steps fs)) :=
      ih hplain.2 fun front last hway => hmade front last hway.tail
    rcases makeAlong_cases start step steps fs with ⟨fault, h⟩ | ⟨hup, -⟩ | ⟨-, -, h⟩ | ⟨-, hnone, hfits, htakes, h⟩
    · rw [h]
      exact .refl
    · exact absurd hup.symm hplain.1
    · rw [h]
      exact hrest fs
    · rw [h]
      exact (ahead_withDirectory htakes hnone (hmade start step (.head start step steps) hfits)).trans (hrest _)

/-- After directories were made they are there. -/
theorem exists_of_makeAlong {u : Unit} (hplain : ".." ∉ steps) (h : makeAlong start steps fs = .ok u fs')
    {place : List String} (hway : OnWay start steps place) : fs'.root.nodeAt place ≠ none := by
  induction steps generalizing start fs with
  | nil =>
    obtain ⟨front, step, hleads, -⟩ := hway
    exact absurd (List.prefix_nil.1 hleads) (by simp)
  | cons step steps ih =>
    rw [List.mem_cons, not_or] at hplain
    obtain ⟨fs₁, ⟨access, hfs₁⟩, hrest⟩ : ∃ fs₁ : FileSystem, HasDirectory fs₁.root (start ++ [step]) ∧
        makeAlong (start ++ [step]) steps fs₁ = .ok u fs' := by
      rcases makeAlong_cases start step steps fs with
        ⟨fault, heq⟩ | ⟨hup, -⟩ | ⟨-, hthere, heq⟩ | ⟨-, -, -, htakes, heq⟩
      · rw [heq] at h
        cases h
      · exact absurd hup.symm hplain.1
      · exact ⟨fs, hthere, heq ▸ h⟩
      · exact ⟨_, ⟨.full, nodeAt_withNode_self rfl htakes⟩, heq ▸ h⟩
    obtain ⟨front, last, hleads, rfl⟩ := hway
    cases front with
    | nil =>
      obtain ⟨rfl, -⟩ := List.cons_prefix_cons.1 hleads
      -- What was made first is still there after the rest was made.
      have hahead : Ahead (fun _ => True) (fun _ => False) fs₁ (after (makeAlong (start ++ [last]) steps fs₁)) :=
        ahead_makeAlong hplain.2 fun _ _ _ _ => trivial
      rw [hrest] at hahead
      have hkept := hahead.directories _ access hfs₁
      rw [List.nil_append]
      exact hkept ▸ Option.some_ne_none _
    | cons first front =>
      obtain ⟨rfl, hbehind⟩ := List.cons_prefix_cons.1 (show first :: (front ++ [last]) <+: step :: steps from hleads)
      exact ih hplain.2 hrest ⟨front, last, hbehind, by simp⟩

/-- To make directories ends in the same way where others have made some of them already. -/
theorem lockstep_makeAlong (h : Ahead made written fs fs') (hplain : ".." ∉ steps)
    (hfits : ∀ front step, made (front ++ [step]) → Fits step)
    (hclear : ∀ place, OnWay start steps place → ¬ written place)
    (hstart : fs.root.nodeAt start = fs'.root.nodeAt start) :
    Lockstep (Ahead made written) (makeAlong start steps fs) (makeAlong start steps fs') := by
  induction steps generalizing start fs fs' with
  | nil => exact .ok () h
  | cons step steps ih =>
    rw [List.mem_cons, not_or] at hplain
    have hrest {fs fs' : FileSystem} (h : Ahead made written fs fs')
        (hnext : fs.root.nodeAt (start ++ [step]) = fs'.root.nodeAt (start ++ [step])) :
        Lockstep (Ahead made written) (makeAlong (start ++ [step]) steps fs) (makeAlong (start ++ [step]) steps fs') :=
      ih h hplain.2 (fun place hway => hclear place hway.tail) hnext
    rw [makeAlong_cons fs (Ne.symm hplain.1), makeAlong_cons fs' (Ne.symm hplain.1), ← hstart]
    cases hplace : fs.root.nodeAt start with
    | none => exact .error _ h
    | some above =>
      cases above with
      | file access content => exact .error _ h
      | directory access entries =>
        obtain rfl := entries_eq_nil_of_nodeAt hplace
        dsimp only
        by_cases henter : access.enter = true
        · rw [if_pos henter, if_pos henter]
          rcases h.node _ (hclear _ (.head start step steps)) with hnext | ⟨hnone, hsome, hmade⟩
          · rw [← hnext]
            cases hnode : fs.root.nodeAt (start ++ [step]) with
            | some n =>
              by_cases hdirectory : n.isDirectory = true
              · simp only [if_pos hdirectory]
                exact hrest h hnext
              · simp only [if_neg hdirectory]
                exact .error _ h
            | none =>
              by_cases hlong : Path.maxNameLength < step.utf8ByteSize
              · simp only [if_pos hlong]
                exact .error _ h
              · by_cases hwrite : access.write = true
                · have htakes : fs.Takes start step :=
                    ⟨⟨access, hplace, henter, fun _ => hwrite⟩, not_hasDirectory_of_none hnode⟩
                  have htakes' : fs'.Takes start step :=
                    ⟨⟨access, hstart ▸ hplace, henter, fun _ => hwrite⟩, not_hasDirectory_of_none (hnext ▸ hnode)⟩
                  simp only [if_neg hlong, if_pos hwrite]
                  apply hrest (h.withNode rfl htakes htakes')
                  rw [nodeAt_withNode_self rfl htakes, nodeAt_withNode_self rfl htakes']
                · simp only [if_neg hlong, if_neg hwrite]
                  exact .error _ h
          · -- The directory is there in one file system only. The other one makes it now.
            have hthere : fs'.root.nodeAt (start ++ [step]) ≠ none := hsome ▸ Option.some_ne_none _
            obtain ⟨access', hplace', -, hwrite⟩ := h.grown start step hnone hthere
            rw [← hstart, hplace, Option.some.injEq, directory.injEq] at hplace'
            obtain ⟨rfl, -⟩ := hplace'
            have htakes : fs.Takes start step :=
              ⟨⟨access, hplace, henter, fun _ => hwrite⟩, not_hasDirectory_of_none hnone⟩
            have hlong : ¬ Path.maxNameLength < step.utf8ByteSize := Nat.not_lt.2 (hfits start step hmade)
            simp only [hnone, hsome, if_neg hlong, if_pos hwrite]
            apply hrest (h.withDirectory_left htakes hsome)
            rw [nodeAt_withNode_self rfl htakes, hsome]
        · rw [if_neg henter, if_neg henter]
          exact .error _ h

end

/-! ## Writing a file -/

section

variable {made written : List String → Prop} {fs fs' : FileSystem} {path name : String} {above : List String}

theorem place_of_steps (fs : FileSystem) (hsteps : Path.steps path = above ++ [name]) :
    fs.place path = fs.start path ++ above ++ [name] := by
  rw [place_eq, hsteps, List.append_assoc]

/-- What stands on the way decides where a way ends. -/
theorem follow_congr {root root' : FileTree} {start steps : List String} (hplain : ".." ∉ steps)
    (h : ∀ front, front <+: steps → root.nodeAt (start ++ front) = root'.nodeAt (start ++ front)) :
    (follow root start steps).map (fun found => (found.1, found.2.node)) =
      (follow root' start steps).map fun found => (found.1, found.2.node) := by
  have hstart := h [] (List.nil_prefix)
  rw [List.append_nil] at hstart
  induction steps generalizing start with
  | nil =>
    unfold follow
    unfold nodeAt at hstart
    cases hroot : root.get? start <;> cases hroot' : root'.get? start <;> simp_all [Except.map]
  | cons step steps ih =>
    rw [List.mem_cons, not_or] at hplain
    have hnext (front : List String) (hfront : front <+: steps) :
        root.nodeAt (start ++ [step] ++ front) = root'.nodeAt (start ++ [step] ++ front) := by
      rw [List.append_assoc]
      exact h _ (List.cons_prefix_cons.2 ⟨rfl, hfront⟩)
    unfold follow
    cases hroot : root.get? start with
    | none =>
      rw [nodeAt_eq_none_iff.2 hroot] at hstart
      rw [nodeAt_eq_none_iff.1 hstart.symm]
    | some tree =>
      rw [nodeAt_of_get? hroot] at hstart
      obtain ⟨tree', htree', hnode⟩ := nodeAt_eq_some_iff.1 hstart.symm
      simp only [htree', isDirectory_of_node hnode, canEnter_of_node hnode, if_neg (Ne.symm hplain.1)]
      split
      · rfl
      · split
        · rfl
        · split
          · rfl
          · exact ih hplain.2 hnext (by simpa using hnext [] List.nil_prefix)

/-- Where a file can be written, given the nodes above it and in its place. -/
def writableAt (path name : String) (place : List String) (above : FileTree) (own : Option FileTree) :
    Except FileFault (List String × Access) :=
  match above with
  | .file _ _ => .error .notDirectory
  | .directory access _ =>
    if access.enter then
      if Path.namesDirectory path then .error .isDirectory
      else if Path.maxNameLength < name.utf8ByteSize then .error .nameTooLong
      else
        match own with
        | some (.directory _ _) => .error .isDirectory
        | some (.file old _) => if old.write then .ok (place, old) else .error .denied
        | none => if access.write then .ok (place, .full) else .error .denied
    else .error .denied

theorem writable_eq (hsteps : Path.steps path = above ++ [name]) :
    fs.writable path = check path >>= fun _ =>
      (follow fs.root (fs.start path) above).map (fun found => (found.1, found.2.node)) >>= fun found =>
        writableAt path name (found.1 ++ [name]) found.2 (fs.root.nodeAt (found.1 ++ [name])) := by
  unfold writable
  rw [hsteps, List.reverse_append, List.reverse_singleton, List.singleton_append]
  simp only [List.reverse_reverse]
  congr 1
  funext _
  cases hfollow : follow fs.root (fs.start path) above with
  | error fault => rfl
  | ok found =>
    obtain ⟨place, tree⟩ := found
    have hnode : fs.root.nodeAt (place ++ [name]) = (tree.get? [name]).map FileTree.node := by
      rw [nodeAt, get?_append, (follow_eq_ok hfollow).2, Option.bind_some]
    cases tree with
    | file access content => rfl
    | directory access entries =>
      simp only [bind, Except.bind, Except.map, writableAt, FileTree.node, hnode]
      cases access.enter with
      | false => rfl
      | true =>
        simp only [Bool.not_true, Bool.false_eq_true, if_false, if_true]
        split
        · rfl
        · split
          · rfl
          · cases (FileTree.directory access entries).get? [name] with
            | none => rfl
            | some tree => cases tree <;> rfl

theorem writableAt_eq_ok {place : List String} {aboveNode : FileTree} {own : Option FileTree}
    {found : List String × Access} (h : writableAt path name place aboveNode own = .ok found) :
    found.1 = place ∧ Path.namesDirectory path = false ∧ Fits name ∧
      ∃ access entries, aboveNode = .directory access entries ∧ access.enter = true ∧
        (own = none ∧ access.write = true ∧ found.2 = .full ∨
          ∃ content, own = some (.file found.2 content) ∧ found.2.write = true) := by
  unfold writableAt at h
  split at h
  · cases h
  · next access entries =>
    by_cases henter : access.enter = true
    · rw [if_pos henter] at h
      by_cases hnames : Path.namesDirectory path = true
      · rw [if_pos hnames] at h
        cases h
      · rw [if_neg hnames] at h
        by_cases hname : Path.maxNameLength < name.utf8ByteSize
        · rw [if_pos hname] at h
          cases h
        · rw [if_neg hname] at h
          have hfits : Fits name := Nat.not_lt.1 hname
          rw [Bool.not_eq_true] at hnames
          split at h
          · cases h
          · next old content =>
            by_cases hold : old.write = true
            · rw [if_pos hold] at h
              cases h
              exact ⟨rfl, hnames, hfits, access, entries, rfl, henter, .inr ⟨content, rfl, hold⟩⟩
            · rw [if_neg hold] at h
              cases h
          · by_cases hwrite : access.write = true
            · rw [if_pos hwrite] at h
              cases h
              exact ⟨rfl, hnames, hfits, access, entries, rfl, henter, .inl ⟨rfl, hwrite, rfl⟩⟩
            · rw [if_neg hwrite] at h
              cases h
    · rw [if_neg henter] at h
      cases h

/-- Where a file can be written, and with what access: in a directory, in place of nothing or of a file. -/
structure Writable (fs : FileSystem) (path : String) (front : List String) (name : String) (above : List String)
    (access : Access) : Prop where
  check : check path = .ok ()
  steps : Path.steps path = front ++ [name]
  down : name ≠ ".."
  fits : Fits name
  namesFile : Path.namesDirectory path = false
  follow : ∃ tree, follow fs.root (fs.start path) front = .ok (above, tree)
  room : ∃ a, fs.root.nodeAt above = some (.directory a []) ∧ a.enter = true ∧
    (fs.root.nodeAt (above ++ [name]) = none → a.write = true)
  own : fs.root.nodeAt (above ++ [name]) = none ∧ access = .full ∨
    access.write = true ∧ ∃ old, fs.root.nodeAt (above ++ [name]) = some (.file access old)

theorem writable_eq_ok {found : List String × Access} (h : fs.writable path = .ok found) :
    ∃ front name above, fs.Writable path front name above found.2 ∧ found.1 = above ++ [name] := by
  obtain ⟨front, name, hsteps⟩ : ∃ front name, Path.steps path = front ++ [name] := by
    rcases List.eq_nil_or_concat (Path.steps path) with hnil | ⟨front, name, hsteps⟩
    · unfold writable at h
      rw [hnil] at h
      obtain ⟨_, -, h⟩ := Except.bind_eq_ok_iff.1 h
      cases h
    · exact ⟨front, name, hsteps.trans (List.concat_eq_append ..)⟩
  rw [writable_eq hsteps] at h
  obtain ⟨_, hcheck, h⟩ := Except.bind_eq_ok_iff.1 h
  obtain ⟨_, hfound, h⟩ := Except.bind_eq_ok_iff.1 h
  obtain ⟨⟨above, tree⟩, hfollow, rfl⟩ := Except.map_eq_ok_iff.1 hfound
  obtain ⟨hplace, hnames, hfits, access, entries, hdirectory, henter, hown⟩ := writableAt_eq_ok h
  have hroom : fs.root.nodeAt above = some (.directory access entries) := by
    rw [nodeAt_of_get? (follow_eq_ok hfollow).2]
    exact congrArg some hdirectory
  obtain rfl := entries_eq_nil_of_nodeAt hroom
  obtain ⟨front', last, hlast, hdown⟩ := Path.exists_last_step hnames
  obtain ⟨-, hname⟩ := List.append_inj' (hsteps.symm.trans hlast) rfl
  obtain rfl := List.singleton_inj.1 hname
  refine ⟨front, name, above,
    ⟨hcheck, hsteps, hdown, hfits, hnames, ⟨tree, hfollow⟩, ⟨access, hroom, henter, fun hnone => ?_⟩, ?_⟩, hplace⟩
  · rcases hown with ⟨-, hwrite, -⟩ | ⟨content, hcontent, -⟩
    · exact hwrite
    · rw [hnone] at hcontent
      cases hcontent
  · rcases hown with ⟨hnone, -, hfull⟩ | ⟨content, hcontent, hwrite⟩
    · exact .inl ⟨hnone, hfull⟩
    · exact .inr ⟨hwrite, content, hcontent⟩

section

variable {front : List String} {access : Access}

theorem Writable.takes (h : fs.Writable path front name above access) : fs.Takes above name := by
  refine ⟨h.room, ?_⟩
  rcases h.own with ⟨hnone, -⟩ | ⟨-, old, hold⟩
  · exact not_hasDirectory_of_none hnone
  · exact not_hasDirectory_of_nodeAt hold rfl

theorem Writable.writable_eq (h : fs.Writable path front name above access) :
    fs.writable path = .ok (above ++ [name], access) := by
  obtain ⟨tree, hfollow⟩ := h.follow
  obtain ⟨a, hroom, henter, hnew⟩ := h.room
  have htree : tree.node = .directory a [] :=
    Option.some.inj ((nodeAt_of_get? (follow_eq_ok hfollow).2).symm.trans hroom)
  have hlong : ¬ Path.maxNameLength < name.utf8ByteSize := Nat.not_lt.2 h.fits
  rw [FileSystem.writable_eq h.steps, h.check, hfollow]
  simp only [bind, Except.bind, Except.map, htree, writableAt, henter, if_true, h.namesFile, Bool.false_eq_true,
    if_false, if_neg hlong]
  rcases h.own with ⟨hnone, rfl⟩ | ⟨hwrite, old, hold⟩
  · rw [hnone]
    simp [hnew hnone]
  · rw [hold]
    simp [hwrite]

/-- What stands where a file can be written is found. -/
theorem Writable.find_eq (h : fs.Writable path front name above access) {a : Access} {content : File}
    (hfile : fs.root.get? (above ++ [name]) = some (.file a content)) :
    fs.find path = .ok (above ++ [name], .file a content) := by
  obtain ⟨tree, hfollow⟩ := h.follow
  obtain ⟨b, hroom, henter, -⟩ := h.room
  refine find_eq_ok_iff_follow.2 ⟨h.check, ?_, fun hnames => ?_, fun hinside => ?_⟩
  · rw [h.steps, follow_append_eq_ok_iff]
    refine ⟨_, hfollow, follow_cons_eq_ok_iff.2 ⟨⟨b, hroom, henter⟩, fun _ => h.fits, ?_⟩⟩
    rw [Path.go, if_neg h.down]
    exact follow_nil_eq_ok_iff.2 ⟨rfl, hfile⟩
  · rw [h.namesFile] at hnames
    cases hnames
  · have hnames := Path.namesDirectory_of_endsInside hinside
    rw [h.namesFile] at hnames
    cases hnames

theorem Writable.withNode (h : fs.Writable path front name above access) (content : File) :
    (fs.withNode (.file access content) (above ++ [name])).Writable path front name above access := by
  have hkept := h.takes.keepsDirectories (n := .file access content) rfl
  have hself := nodeAt_withNode_self (n := .file access content) rfl h.takes
  obtain ⟨tree, hfollow⟩ := h.follow
  obtain ⟨a, hroom, henter, -⟩ := h.room
  have hroom' := hkept above a hroom
  obtain ⟨entries, hget⟩ := nodeAt_eq_directory_iff.1 hroom'
  refine ⟨h.check, h.steps, h.down, h.fits, h.namesFile, ⟨_, follow_mono hkept hfollow hget⟩,
    ⟨a, hroom', henter, fun hnone => ?_⟩, .inr ⟨?_, content, hself⟩⟩
  · rw [hself] at hnone
    cases hnone
  · rcases h.own with ⟨-, rfl⟩ | ⟨hwrite, -⟩
    · rfl
    · exact hwrite

theorem Writable.place_eq (h : fs.Writable path front name above access) (hplain : Path.IsPlain path) :
    fs.place path = above ++ [name] := by
  obtain ⟨tree, hfollow⟩ := h.follow
  have habove : above = fs.start path ++ front :=
    (follow_eq_ok hfollow).1.trans (Path.foldl_go (hplain.not_mem h.steps) _)
  rw [FileSystem.place_eq, h.steps, habove, List.append_assoc]

end

/-- A file is written at one place, and nowhere else. -/
theorem write_eq_ok {content : File} {u : Unit} (h : write path content fs = .ok u fs') :
    ∃ front name above access, fs.Writable path front name above access ∧
      fs' = fs.withNode (.file access content) (above ++ [name]) := by
  unfold write at h
  split at h
  · next place access hwritable =>
    cases h
    obtain ⟨front, name, above, hwrite, rfl⟩ := writable_eq_ok hwritable
    exact ⟨front, name, above, access, hwrite, rfl⟩
  · cases h

theorem write_eq_error {content : File} {fault : FileFault} (h : write path content fs = .error fault fs') :
    fs' = fs := by
  unfold write at h
  split at h
  · cases h
  · cases h
    rfl

/-- To write a file changes nothing else. -/
theorem ahead_write (hplain : Path.IsPlain path) (content : File) :
    Ahead made (· = fs.place path) fs (after (write path content fs)) := by
  cases hwrite : write path content fs with
  | error fault fs' =>
    obtain rfl := write_eq_error hwrite
    exact .refl
  | ok u fs' =>
    obtain ⟨front, name, above, access, hwritable, rfl⟩ := write_eq_ok hwrite
    rw [hwritable.place_eq hplain]
    exact ahead_withNode rfl hwritable.takes

/-- What was written is there. -/
theorem node?_of_write {content : File} {u : Unit} (h : write path content fs = .ok u fs') :
    ∃ access, fs'.node? path = some (.file access content) := by
  obtain ⟨front, name, above, access, hwritable, rfl⟩ := write_eq_ok h
  have hself := nodeAt_withNode_self (n := .file access content) rfl hwritable.takes
  refine ⟨access, ?_⟩
  rw [node?, (hwritable.withNode content).find_eq (nodeAt_eq_file_iff.1 hself)]
  rfl

/-- To write a file ends in the same way in a file system that is ahead, if the directories above the file are there
and nothing was written on the way. -/
theorem lockstep_write (h : Ahead made written fs fs') (hsteps : Path.steps path = above ++ [name])
    (hplain : Path.IsPlain path) (hway : ∀ front, front <+: above →
      fs.root.nodeAt (fs.start path ++ front) = fs'.root.nodeAt (fs.start path ++ front))
    (hown : fs.root.nodeAt (fs.place path) = fs'.root.nodeAt (fs.place path)) (content : File) :
    Lockstep (Ahead made written) (write path content fs) (write path content fs') := by
  have habove : ".." ∉ above := hplain.not_mem hsteps
  have hstart : fs'.start path = fs.start path := h.start_eq path
  have hsame : fs.writable path = fs'.writable path := by
    rw [writable_eq hsteps, writable_eq hsteps, hstart, ← follow_congr habove hway]
    congr 1
    funext _
    cases hfollow : follow fs.root (fs.start path) above with
    | error fault => rfl
    | ok found =>
      have hplace : fs.place path = found.1 ++ [name] := by
        rw [place_of_steps fs hsteps, ((follow_eq_ok_iff habove).1 hfollow).2.1]
      rw [hplace] at hown
      show writableAt _ _ _ _ _ = writableAt _ _ _ _ _
      rw [hown]
  unfold write
  rw [← hsame]
  cases hwritable : fs.writable path with
  | error fault => exact .error fault h
  | ok found =>
    obtain ⟨place, access⟩ := found
    obtain ⟨front, last, old, hwrite, rfl⟩ := writable_eq_ok hwritable
    obtain ⟨front', last', old', hwrite', heq⟩ := writable_eq_ok (hsame ▸ hwritable)
    obtain ⟨rfl, hlast⟩ := List.append_inj' heq rfl
    obtain rfl := List.singleton_inj.1 hlast
    exact .ok () (h.withNode rfl hwrite.takes hwrite'.takes)

end

/-! ## Writing below new directories -/

/-- Makes the directories above a path. -/
def createAbove (path : String) : Action AccessError Unit :=
  match Path.parent? path with
  | some above => createDirectories above
  | none => pure ()

/-- Writes a file. -/
def writeData (path : String) (data : List UInt8) : Action AccessError Unit :=
  (write path (.ofBytes data)).adaptExcept (.writeFile path)

/-- A file is written after the directories above it were made. -/
theorem writeBelow_eq (path : String) (data : List UInt8) :
    writeBelow path data = createAbove path >>= fun _ => writeData path data := by
  unfold writeBelow createAbove
  cases Path.parent? path <;> rfl

section

variable {made written : List String → Prop} {fs fs' : FileSystem} {path above name : String}

theorem createAbove_eq (hbelow : Path.IsBelow path above name) :
    createAbove path = (makeDirectories above).adaptExcept (.create above) := by
  unfold createAbove createDirectories
  rw [hbelow.parent?]

theorem start_above (hbelow : Path.IsBelow path above name) (fs : FileSystem) : fs.start above = fs.start path := by
  rw [start, start, hbelow.isAbsolute]

/-- All directories above a path are there. -/
def HasRoom (fs : FileSystem) (path above : String) : Prop :=
  ∀ place, OnWay (fs.start path) (Path.steps above) place → fs.root.nodeAt place ≠ none

theorem ahead_createAbove (hbelow : Path.IsBelow path above name)
    (hmade : ∀ front step, OnWay (fs.start path) (Path.steps above) (front ++ [step]) → Fits step →
      made (front ++ [step])) :
    Ahead made written fs (after (createAbove path fs)) := by
  rw [createAbove_eq hbelow, after_adaptExcept]
  unfold makeDirectories
  split
  · exact .refl
  · split
    · exact .refl
    · rw [start_above hbelow]
      exact ahead_makeAlong hbelow.isPlain_above hmade

theorem hasRoom_of_createAbove {u : Unit} (hbelow : Path.IsBelow path above name)
    (h : createAbove path fs = .ok u fs') : fs'.HasRoom path above := by
  have hahead : Ahead (fun _ => True) (fun _ => False) fs (after (createAbove path fs)) :=
    ahead_createAbove hbelow fun _ _ _ _ => trivial
  rw [h] at hahead
  have hstart : fs'.start path = fs.start path := hahead.start_eq path
  rw [createAbove_eq hbelow] at h
  unfold EStateM.adaptExcept at h
  split at h
  · cases h
  · next hmake =>
    cases h
    intro place hway
    rw [hstart] at hway
    unfold makeDirectories at hmake
    split at hmake
    · next hempty =>
      rw [String.isEmpty_iff.1 hempty] at hway
      obtain ⟨front, step, hleads, -⟩ := hway
      exact absurd (List.prefix_nil.1 hleads) (by simp)
    · split at hmake
      · cases hmake
      · rw [start_above hbelow] at hmake
        exact exists_of_makeAlong hbelow.isPlain_above hmake hway

theorem lockstep_createAbove (h : Ahead made written fs fs') (hbelow : Path.IsBelow path above name)
    (hfits : ∀ front step, made (front ++ [step]) → Fits step)
    (hclear : ∀ place, OnWay (fs.start path) (Path.steps above) place → ¬ written place)
    (hstart : fs.root.nodeAt (fs.start path) = fs'.root.nodeAt (fs.start path)) :
    Lockstep (Ahead made written) (createAbove path fs) (createAbove path fs') := by
  have hsame : fs'.start path = fs.start path := h.start_eq path
  rw [createAbove_eq hbelow]
  apply Lockstep.adaptExcept
  unfold makeDirectories
  split
  · exact .ok () h
  · split
    · exact .error _ h
    · rw [start_above hbelow, start_above hbelow, hsame]
      exact lockstep_makeAlong h hbelow.isPlain_above hfits hclear hstart

theorem ahead_writeData (hbelow : Path.IsBelow path above name) (data : List UInt8) :
    Ahead made (· = fs.place path) fs (after (writeData path data fs)) := by
  unfold writeData
  rw [after_adaptExcept]
  exact ahead_write hbelow.isPlain _

theorem data?_of_writeData {data : List UInt8} {u : Unit} (h : writeData path data fs = .ok u fs') :
    fs'.data? path = some data := by
  unfold writeData EStateM.adaptExcept at h
  split at h
  · cases h
  · next hwrite =>
    cases h
    obtain ⟨access, hnode⟩ := node?_of_write hwrite
    rw [data?, hnode]
    rfl

theorem data?_of_writeBelow {data : List UInt8} {u : Unit} (h : writeBelow path data fs = .ok u fs') :
    fs'.data? path = some data := by
  rw [writeBelow_eq, EStateM.bind_eq_ok_iff] at h
  obtain ⟨_, fs₁, -, hdata⟩ := h
  exact data?_of_writeData hdata

theorem lockstep_writeData (h : Ahead made written fs fs') (hbelow : Path.IsBelow path above name)
    (hroom : fs.HasRoom path above) (hclear : ∀ place, OnWay (fs.start path) (Path.steps above) place → ¬ written place)
    (hstart : fs.root.nodeAt (fs.start path) = fs'.root.nodeAt (fs.start path))
    (hown : fs.root.nodeAt (fs.place path) = fs'.root.nodeAt (fs.place path)) (data : List UInt8) :
    Lockstep (Ahead made written) (writeData path data fs) (writeData path data fs') := by
  apply Lockstep.adaptExcept
  apply lockstep_write h hbelow.steps hbelow.isPlain _ hown
  intro front hfront
  rcases List.eq_nil_or_concat front with rfl | ⟨behind, step, rfl⟩
  · rw [List.append_nil]
    exact hstart
  · rw [List.concat_eq_append] at hfront ⊢
    have hway : OnWay (fs.start path) (Path.steps above) (fs.start path ++ (behind ++ [step])) :=
      ⟨behind, step, hfront, rfl⟩
    exact h.eq_of_ne_none (hclear _ hway) (hroom _ hway)

end

end Registrar.FileSystem
