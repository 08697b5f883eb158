import Registrar.Proofs.Turns

/-!
# Schedules

All groups take turns in one file system, in the order that a schedule gives.

* `Pool`, `Pool.run` : the groups with the file system that they share, and what a schedule makes of them;
* `Pool.run_sequential` : runs one after the other are one of the schedules;
* `Beside`, `Separable` : when the groups keep out of each other's way;
* `Pool.run_isolated` : after five turns a group is where it would be if it had run alone.
-/

namespace Registrar

open FileSystem (Ahead OnWay Fits HasRoom)

/-- How far each group is, by its position, and the file system that they share. -/
structure Pool where
  /-- How far the groups are. -/
  progress : Nat → Progress
  /-- The file system. -/
  fs : FileSystem

namespace Pool

section

variable (groups : List TargetGroup) (inputs : Inputs) (work : String)

/-- Before the first turn. -/
def start (fs : FileSystem) : Pool := ⟨fun _ => .waiting, fs⟩

/-- The group at a position takes its next turn. -/
def turn (p : Pool) (i : Nat) : Pool :=
  match groups[i]? with
  | none => p
  | some g =>
    let (progress, fs) := g.advance inputs work (p.progress i) p.fs
    ⟨Function.update p.progress i progress, fs⟩

/-- The groups take turns in the order of a schedule. -/
def run (schedule : List Nat) (p : Pool) : Pool := schedule.foldl (turn groups inputs work) p

theorem run_append (first second : List Nat) (p : Pool) :
    run groups inputs work (first ++ second) p = run groups inputs work second (run groups inputs work first p) :=
  List.foldl_append

theorem run_cons (i : Nat) (schedule : List Nat) (p : Pool) :
    run groups inputs work (i :: schedule) p = run groups inputs work schedule (turn groups inputs work p i) := rfl

/-! ## One group after the other -/

/-- Five turns for each of `n` groups, from a position on. -/
def sequential (first n : Nat) : List Nat := (List.range' first n).flatMap (List.replicate 5)

variable {groups inputs work}

theorem run_replicate {g : TargetGroup} {i : Nat} (hg : groups[i]? = some g) (n : Nat) (p : Pool) :
    run groups inputs work (List.replicate n i) p =
      ⟨Function.update p.progress i ((g.turn inputs work)^[n] (p.progress i, p.fs)).1,
        ((g.turn inputs work)^[n] (p.progress i, p.fs)).2⟩ := by
  induction n generalizing p with
  | zero =>
    show p = _
    rw [Function.iterate_zero, id, Function.update_eq_self]
  | succ n ih =>
    rw [List.replicate_succ, run_cons, ih, Function.iterate_succ_apply]
    unfold turn TargetGroup.turn
    rw [hg]
    simp only [Function.update_self, Function.update_idem]

/-- Runs one after the other are one of the schedules. Groups that are done stay as they are. -/
theorem run_sequential {done rest : List TargetGroup} (hgroups : groups = done ++ rest) {p : Pool}
    (hwaiting : ∀ i, done.length ≤ i → p.progress i = .waiting) :
    (run groups inputs work (sequential done.length rest.length) p).fs = (TargetGroup.runAll inputs work rest p.fs).2 ∧
      (∀ i < done.length,
        (run groups inputs work (sequential done.length rest.length) p).progress i = p.progress i) ∧
      ((List.range' done.length rest.length).flatMap fun i =>
        ((run groups inputs work (sequential done.length rest.length) p).progress i).outcomes) =
          (TargetGroup.runAll inputs work rest p.fs).1 := by
  induction rest generalizing done p with
  | nil => exact ⟨rfl, fun _ _ => rfl, rfl⟩
  | cons g rest ih =>
    have hg : groups[done.length]? = some g := by
      rw [hgroups, List.getElem?_append_right (Nat.le_refl _), Nat.sub_self]
      rfl
    have hschedule : sequential done.length (g :: rest).length =
        List.replicate 5 done.length ++ sequential (done ++ [g]).length rest.length := by
      unfold sequential
      rw [List.length_cons, List.range'_succ, List.flatMap_cons, List.length_append, List.length_singleton]
    have hfirst : run groups inputs work (List.replicate 5 done.length) p = _ := run_replicate hg 5 p
    rw [hwaiting _ (Nat.le_refl _), TargetGroup.iterate_turn] at hfirst
    obtain ⟨p₁, hp₁⟩ : ∃ p₁, p₁ = run groups inputs work (List.replicate 5 done.length) p := ⟨_, rfl⟩
    have hself : p₁.progress done.length = .finished (g.run inputs work p.fs).1 := by
      rw [hp₁, hfirst]
      exact Function.update_self _ _ _
    have hother (i : Nat) (hi : i ≠ done.length) : p₁.progress i = p.progress i := by
      rw [hp₁, hfirst]
      exact Function.update_of_ne hi _ _
    have hfs₁ : p₁.fs = (g.run inputs work p.fs).2 := by
      rw [hp₁, hfirst]
    have hlength : (done ++ [g]).length = done.length + 1 := by
      rw [List.length_append, List.length_singleton]
    rw [hschedule, run_append, ← hp₁]
    have hbehind : groups = (done ++ [g]) ++ rest := by
      rw [hgroups, List.append_assoc, List.singleton_append]
    have hwaiting₁ : ∀ i, (done ++ [g]).length ≤ i → p₁.progress i = .waiting := by
      intro i hi
      rw [hother i (by omega)]
      exact hwaiting i (by omega)
    obtain ⟨hfs, hkept, houtcomes⟩ := ih hbehind hwaiting₁
    refine ⟨by rw [hfs, hfs₁]; rfl, fun i hi => ?_, ?_⟩
    · rw [hkept i (by omega), hother i (by omega)]
    · rw [List.length_cons, List.range'_succ, List.flatMap_cons, hkept done.length (by omega), hself]
      rw [hfs₁, hlength] at houtcomes
      rw [hlength]
      exact congrArg ((g.run inputs work p.fs).1 ++ ·) houtcomes

end

/-! ## Groups that keep out of each other's way -/

/-- The roots and the directory of copies stand beside each other: neither is in the other. Their paths go down only. -/
structure Beside (inputs : Inputs) (work : String) (fs : FileSystem) : Prop where
  plain : Path.IsPlain work
  roots : ∀ root ∈ inputs.roots, Path.IsPlain root.path ∧
    ¬ fs.place root.path <+: Path.copies fs.workingDirectory work ∧
    ¬ Path.copies fs.workingDirectory work <+: fs.place root.path

/-- Moreover the classes have proper names, one group each. -/
structure Separable (groups : List TargetGroup) (inputs : Inputs) (work : String) (fs : FileSystem) : Prop extends
    Beside inputs work fs where
  proper : ∀ g ∈ groups, IsProperName g.target
  distinct : (groups.map (·.target)).Nodup

/-- The places of directories that some group may make. -/
def Makes (groups : List TargetGroup) (work : String) (fs : FileSystem) (place : List String) : Prop :=
  (∃ g ∈ groups, OnWay (fs.start work) (Path.steps (g.copyPath work)).dropLast place) ∧
    ∀ front step, place = front ++ [step] → Fits step

/-- The places of the copies of all groups but one. -/
def Writes (groups : List TargetGroup) (work : String) (fs : FileSystem) (i : Nat) (place : List String) : Prop :=
  ∃ j g, groups[j]? = some g ∧ j ≠ i ∧ place = fs.place (g.copyPath work)

section

variable {groups : List TargetGroup} {inputs : Inputs} {work : String} {fs : FileSystem}

theorem place_copyPath (g : TargetGroup) (work : String) (fs : FileSystem) : fs.place (g.copyPath work) =
    fs.start work ++ (Path.copySteps work ++ Path.steps (classEntryName g.target)) := by
  rw [← List.append_assoc]
  exact Path.place_scratchPath _ _ _

theorem start_copyPath (g : TargetGroup) (work : String) (fs : FileSystem) :
    fs.start (g.copyPath work) = fs.start work := by
  rw [FileSystem.start, FileSystem.start, TargetGroup.copyPath, (Path.scratchPath_steps _ _).2]

theorem dropLast_steps_copyPath {g : TargetGroup} (hg : IsProperName g.target) (work : String) :
    (Path.steps (g.copyPath work)).dropLast =
      Path.copySteps work ++ (Path.steps (classEntryName g.target)).dropLast := by
  obtain ⟨front, last, -, -, hsteps, -⟩ := hg.exists_steps
  rw [TargetGroup.copyPath, (Path.scratchPath_steps _ _).1, hsteps, ← List.append_assoc, List.dropLast_concat,
    List.dropLast_concat]

/-- No copy stands where another one has a directory. -/
theorem Separable.not_onWay (h : Separable groups inputs work fs) {g g' : TargetGroup} (hg : g ∈ groups)
    (hg' : g' ∈ groups) :
    ¬ OnWay (fs.start work) (Path.steps (g.copyPath work)).dropLast (fs.place (g'.copyPath work)) := by
  rintro ⟨front, step, hway, hplace⟩
  rw [place_copyPath] at hplace
  rw [← List.append_cancel_left hplace, dropLast_steps_copyPath (h.proper g hg),
    List.prefix_append_right_inj] at hway
  exact (h.proper g' hg').not_above (h.proper g hg) hway

/-- The copies of different groups stand at different places. -/
theorem Separable.eq_of_place_eq (h : Separable groups inputs work fs) {g g' : TargetGroup} {i j : Nat}
    (hg : groups[i]? = some g) (hg' : groups[j]? = some g')
    (hplace : fs.place (g.copyPath work) = fs.place (g'.copyPath work)) : i = j := by
  rw [place_copyPath, place_copyPath] at hplace
  have hsteps := List.append_cancel_left (List.append_cancel_left hplace)
  have htarget := (h.proper g (List.mem_of_getElem? hg)).eq_of_steps_eq (h.proper g' (List.mem_of_getElem? hg')) hsteps
  have hi : i < (groups.map (·.target)).length := by
    rw [List.length_map]
    exact (List.getElem?_eq_some_iff.1 hg).1
  apply (List.getElem?_inj hi h.distinct).1
  rw [List.getElem?_map, List.getElem?_map, hg, hg', Option.map_some, Option.map_some, htarget]

/-- Nothing is made or written in a root. -/
theorem Separable.apart (h : Separable groups inputs work fs) {root : Root} (hroot : root ∈ inputs.roots) (i : Nat)
    {place : List String} (hplace : fs.place root.path <+: place) :
    ¬ Writes groups work fs i place ∧ ¬ Makes groups work fs place := by
  obtain ⟨-, hnot, hnot'⟩ := h.roots root hroot
  have hcopy (g : TargetGroup) : ¬ place <+: fs.place (g.copyPath work) := by
    intro hbelow
    have hcopies : Path.copies fs.workingDirectory work <+: fs.place (g.copyPath work) := by
      rw [TargetGroup.copyPath, FileSystem.place, Path.place_scratchPath]
      exact List.prefix_append _ _
    rcases List.prefix_or_prefix_of_prefix (hplace.trans hbelow) hcopies with hcase | hcase
    · exact hnot hcase
    · exact hnot' hcase
  constructor
  · rintro ⟨j, g, -, -, rfl⟩
    exact hcopy g (List.prefix_refl _)
  · rintro ⟨⟨g, hg, front, step, hway, rfl⟩, -⟩
    apply hcopy g
    rw [FileSystem.place_eq, start_copyPath, List.prefix_append_right_inj]
    exact hway.trans (List.dropLast_prefix _)

/-- What the other groups do is out of the way of a copy. -/
theorem Separable.clear (h : Separable groups inputs work fs) {g : TargetGroup} {i : Nat} (hg : groups[i]? = some g)
    {above name : String} (hbelow : Path.IsBelow (g.copyPath work) above name) :
    TargetGroup.Clear (Makes groups work fs) (Writes groups work fs i) fs (g.copyPath work) above := by
  have hmem := List.mem_of_getElem? hg
  have habove : Path.steps above = (Path.steps (g.copyPath work)).dropLast := by
    rw [hbelow.steps, List.dropLast_concat]
  refine ⟨fun front step hmade => hmade.2 front step rfl, fun place hway => ?_, ⟨?_, ?_⟩, ⟨?_, ?_⟩⟩
  · rintro ⟨j, g', hg', -, rfl⟩
    rw [habove, start_copyPath] at hway
    exact h.not_onWay hmem (List.mem_of_getElem? hg') hway
  · rintro ⟨j, g', -, -, hplace⟩
    rw [start_copyPath, place_copyPath, ← List.append_assoc] at hplace
    have hlength := congrArg List.length hplace
    simp only [List.length_append, Path.copySteps, List.length_singleton] at hlength
    omega
  · rintro ⟨⟨g', -, front, step, -, hplace⟩, -⟩
    rw [start_copyPath] at hplace
    have hlength := congrArg List.length hplace
    simp only [List.length_append, List.length_singleton] at hlength
    omega
  · rintro ⟨j, g', hg', hne, hplace⟩
    exact hne (h.eq_of_place_eq hg hg' hplace).symm
  · rintro ⟨⟨g', hg', hway⟩, -⟩
    exact h.not_onWay hg' hmem hway

/-! ## Any schedule -/

/-- A group of the pool is where it would be if it had a file system for itself. -/
structure Follows (groups : List TargetGroup) (work : String) (fs : FileSystem) (i : Nat) (g : TargetGroup)
    (s : Progress × FileSystem) (p : Pool) : Prop where
  progress : p.progress i = s.1
  ahead : Ahead (Makes groups work fs) (Writes groups work fs i) s.2 p.fs
  workingDirectory : s.2.workingDirectory = fs.workingDirectory
  room (above name : String) : Path.IsBelow (g.copyPath work) above name → s.1.IsWriting →
    s.2.HasRoom (g.copyPath work) above

variable {i : Nat} {g : TargetGroup} {s : Progress × FileSystem} {p : Pool}

theorem Separable.exists_isBelow (h : Separable groups inputs work fs) (hg : groups[i]? = some g) :
    ∃ above name, Path.IsBelow (g.copyPath work) above name :=
  Path.exists_isBelow_scratchPath h.plain (h.proper g (List.mem_of_getElem? hg))

/-- What a root holds does not change. -/
theorem Follows.node?_eq (h : Separable groups inputs work fs) (hg : groups[i]? = some g)
    (hfollows : Follows groups work fs i g s p) {root : Root} (hroot : root ∈ inputs.roots) :
    s.2.node? (root.pathOf (classEntryName g.target)) = p.fs.node? (root.pathOf (classEntryName g.target)) := by
  have hproper := h.proper g (List.mem_of_getElem? hg)
  obtain ⟨hplain, -⟩ := h.roots root hroot
  have hplace : s.2.place (root.pathOf (classEntryName g.target)) = fs.place (root.pathOf (classEntryName g.target)) :=
    congrArg (Path.place · _) hfollows.workingDirectory
  obtain ⟨hpath, hbelow⟩ : Path.IsPlain (root.pathOf (classEntryName g.target)) ∧
      fs.place root.path <+: fs.place (root.pathOf (classEntryName g.target)) := by
    cases root with
    | archive path => exact ⟨hplain, List.prefix_refl _⟩
    | directory path =>
      constructor
      · intro hmem
        rw [Root.pathOf, Path.steps_join _ hproper.isAbsolute] at hmem
        rcases List.mem_append.1 hmem with hmem | hmem
        · exact hplain hmem
        · exact hproper.isPlain hmem
      · show fs.place path <+: Path.place fs.workingDirectory (Path.join path (classEntryName g.target))
        rw [Path.place_join _ _ hproper.isAbsolute]
        exact List.prefix_append _ _
  obtain ⟨hwritten, hmade⟩ := h.apart hroot i hbelow
  rw [← hplace] at hwritten hmade
  exact hfollows.ahead.node?_eq hpath hwritten hmade

theorem Follows.turn_self (h : Separable groups inputs work fs) (hg : groups[i]? = some g)
    (hfollows : Follows groups work fs i g s p) :
    Follows groups work fs i g (g.turn inputs work s) (turn groups inputs work p i) := by
  obtain ⟨above, name, hbelow⟩ := h.exists_isBelow hg
  have hclear := (h.clear hg hbelow).congr hfollows.workingDirectory
  obtain ⟨hprogress, hahead⟩ := TargetGroup.advance_lockstep hfollows.ahead hbelow hclear
    (fun root hroot => hfollows.node?_eq h hg hroot) (hfollows.room above name hbelow)
  have hturn : turn groups inputs work p i = ⟨Function.update p.progress i (g.advance inputs work s.1 p.fs).1,
      (g.advance inputs work s.1 p.fs).2⟩ := by
    rw [turn, hg, hfollows.progress]
  rw [hturn]
  refine ⟨?_, hahead, ?_, fun above name hbelow hwriting => ?_⟩
  · exact (Function.update_self _ _ _).trans hprogress.symm
  · have hchange : Ahead (fun _ => True) (fun _ => True) s.2 (g.turn inputs work s).2 :=
      TargetGroup.ahead_advance hbelow (fun _ _ _ _ => trivial) trivial
    exact hchange.workingDirectory.trans hfollows.workingDirectory
  · exact TargetGroup.hasRoom_advance g inputs work hbelow hwriting

theorem Follows.turn_other (h : Separable groups inputs work fs) {j : Nat} (hj : j ≠ i)
    (hfollows : Follows groups work fs i g s p) :
    Follows groups work fs i g s (turn groups inputs work p j) := by
  unfold turn
  cases hg' : groups[j]? with
  | none => exact hfollows
  | some g' =>
    have hdirectory : p.fs.workingDirectory = fs.workingDirectory :=
      hfollows.ahead.workingDirectory.trans hfollows.workingDirectory
    obtain ⟨above, name, hbelow⟩ := h.exists_isBelow hg'
    have habove : Path.steps above = (Path.steps (g'.copyPath work)).dropLast := by
      rw [hbelow.steps, List.dropLast_concat]
    have hstart : p.fs.start (g'.copyPath work) = fs.start work := by
      rw [start_copyPath, FileSystem.start, FileSystem.start, hdirectory]
    have hchange : Ahead (Makes groups work fs) (Writes groups work fs i) p.fs
        (g'.advance inputs work (p.progress j) p.fs).2 := by
      apply TargetGroup.ahead_advance hbelow
      · intro front step hway hfits
        rw [hstart, habove] at hway
        refine ⟨⟨g', List.mem_of_getElem? hg', hway⟩, fun front' step' heq => ?_⟩
        obtain ⟨-, hstep⟩ := List.append_inj' heq rfl
        exact List.singleton_inj.1 hstep ▸ hfits
      · exact ⟨j, g', hg', hj, congrArg (Path.place · _) hdirectory⟩
    refine ⟨?_, hfollows.ahead.trans hchange, hfollows.workingDirectory, hfollows.room⟩
    exact (Function.update_of_ne (Ne.symm hj) _ _).trans hfollows.progress

/-- Under any schedule a group gets as far as its own turns take it. -/
theorem Follows.run (h : Separable groups inputs work fs) (hg : groups[i]? = some g) (schedule : List Nat)
    (hfollows : Follows groups work fs i g s p) :
    Follows groups work fs i g ((g.turn inputs work)^[schedule.count i] s) (run groups inputs work schedule p) := by
  induction schedule generalizing s p with
  | nil => exact hfollows
  | cons j schedule ih =>
    rw [run_cons]
    by_cases hj : j = i
    · subst hj
      rw [List.count_cons_self, Function.iterate_succ_apply]
      exact ih (hfollows.turn_self h hg)
    · rw [List.count_cons_of_ne (by simpa using hj)]
      exact ih (hfollows.turn_other h hj)

theorem follows_start (g : TargetGroup) (i : Nat) : Follows groups work fs i g (.waiting, fs) (start fs) :=
  ⟨rfl, .refl, rfl, fun _ _ _ hwriting => hwriting.elim⟩

/-- After five turns a group has the outcomes of its run. Other groups have changed nothing else than to make
directories and to write their copies. -/
theorem run_isolated (h : Separable groups inputs work fs) (hg : groups[i]? = some g) {schedule : List Nat}
    (hturns : 5 ≤ schedule.count i) :
    Follows groups work fs i g (.finished (g.run inputs work fs).1, (g.run inputs work fs).2)
      (run groups inputs work schedule (start fs)) := by
  have hfollows := Follows.run h hg schedule (follows_start g i)
  obtain ⟨more, hmore⟩ := Nat.exists_eq_add_of_le' hturns
  rw [hmore, Function.iterate_add_apply, TargetGroup.iterate_turn, TargetGroup.iterate_finished] at hfollows
  exact hfollows

/-- At its place a copy is what the run of its group made of it. -/
theorem Follows.node?_copyPath (h : Separable groups inputs work fs) (hg : groups[i]? = some g)
    (hfollows : Follows groups work fs i g s p) : s.2.node? (g.copyPath work) = p.fs.node? (g.copyPath work) := by
  obtain ⟨above, name, hbelow⟩ := h.exists_isBelow hg
  have hplace : s.2.place (g.copyPath work) = fs.place (g.copyPath work) :=
    congrArg (Path.place · _) hfollows.workingDirectory
  obtain ⟨hwritten, hmade⟩ := (h.clear hg hbelow).own
  rw [← hplace] at hwritten hmade
  exact hfollows.ahead.node?_eq hbelow.isPlain hwritten hmade

end

end Pool

end Registrar
