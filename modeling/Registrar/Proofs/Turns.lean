import Mathlib.Logic.Function.Iterate
import Registrar.Proofs.Interference

/-!
# Groups side by side

The groups of rules, each with its class, as programs that take turns in one file system. One turn reads, makes
directories or writes a file.

* `Progress`, `TargetGroup.advance` : how far a group is, and its next turn;
* `iterate_turn` : five turns are a run;
* `ahead_advance` : what a turn changes;
* `advance_lockstep` : a turn does the same in a file system that is ahead.
-/

namespace Registrar

/-- How far a group is. -/
inductive Progress where
  /-- Nothing was done. -/
  | waiting
  /-- The class was found and read. -/
  | found (root : Root) (bytes : List UInt8)
  /-- The directories above the copy were made. -/
  | ready (root : Root) (bytes : List UInt8)
  /-- The copy was written. -/
  | copied (root : Root) (bytes : List UInt8)
  /-- The class was changed, and the directories above the copy were made again. -/
  | changed (root : Root) (bytes data : List UInt8) (results : GroupResults)
  /-- Each rule has its outcome. -/
  | finished (outcomes : List (Nat × InjectionOutcome))

/-- Whether the next turn writes a file. -/
def Progress.IsWriting : Progress → Prop
  | .ready _ _ => True
  | .changed _ _ _ _ => True
  | _ => False

/-- The outcomes of a group that is done. -/
def Progress.outcomes : Progress → List (Nat × InjectionOutcome)
  | .finished outcomes => outcomes
  | _ => []

namespace TargetGroup

open FileSystem (Action createAbove writeData after Ahead Lockstep HasRoom OnWay Fits)

variable (g : TargetGroup) (inputs : Inputs) (work : String)

/-! ## Turns -/

/-- The path of the copy. -/
def copyPath : String := scratchPath work (classEntryName g.target)

/-- The copy of a class that was found. -/
def copyOf (root : Root) (bytes : List UInt8) : Materialized :=
  ⟨root, classEntryName g.target, g.copyPath work, bytes⟩

/-- The outcomes of all rules, given why the class could not be written, if it could not. -/
def outcomes (m : Materialized) (failure : Option TargetError) (results : GroupResults) :
    List (Nat × InjectionOutcome) :=
  results.map fun result => (result.1, outcome m failure result.2)

/-- The changed class that has to be written, or the outcomes if there is none. -/
def change (m : Materialized) : Except (List (Nat × InjectionOutcome)) (List UInt8 × GroupResults) :=
  match m.decode g.target with
  | .error error => .error (g.skipAll error)
  | .ok file =>
    let (d, results) := (ClassDraft.of file).injectRules g.rules
    if anyApplied results then
      match d.encodeReadable with
      | .error reason => .error (outcomes m (some (.injection g.target reason)) results)
      | .ok data => .ok (data, results)
    else .error (outcomes m none results)

/-- The next turn. -/
def advance : Progress → FileSystem → Progress × FileSystem
  | .waiting, fs =>
    match inputs.locate? fs g.target with
    | none => (.finished (g.skipAll (.targetClassNotFound g.target)), fs)
    | some root =>
      match root.readEntry fs (classEntryName g.target) with
      | .error cause => (.finished (g.skipAll (.classExtraction g.target root.describe cause)), fs)
      | .ok bytes => (.found root bytes, fs)
  | .found root bytes, fs =>
    match createAbove (g.copyPath work) fs with
    | .error cause fs => (.finished (g.skipAll (.classExtraction g.target root.describe cause)), fs)
    | .ok _ fs => (.ready root bytes, fs)
  | .ready root bytes, fs =>
    match writeData (g.copyPath work) bytes fs with
    | .error cause fs => (.finished (g.skipAll (.classExtraction g.target root.describe cause)), fs)
    | .ok _ fs => (.copied root bytes, fs)
  | .copied root bytes, fs =>
    match g.change (g.copyOf work root bytes) with
    | .error outcomes => (.finished outcomes, fs)
    | .ok (data, results) =>
      match createAbove (g.copyPath work) fs with
      | .error cause fs =>
        (.finished (outcomes (g.copyOf work root bytes) (some (.injection g.target (.file cause))) results), fs)
      | .ok _ fs => (.changed root bytes data results, fs)
  | .changed root bytes data results, fs =>
    match writeData (g.copyPath work) data fs with
    | .error cause fs =>
      (.finished (outcomes (g.copyOf work root bytes) (some (.injection g.target (.file cause))) results), fs)
    | .ok _ fs => (.finished (outcomes (g.copyOf work root bytes) none results), fs)
  | .finished outcomes, fs => (.finished outcomes, fs)

/-- A turn of a group that has a file system for itself. -/
def turn (s : Progress × FileSystem) : Progress × FileSystem := g.advance inputs work s.1 s.2

/-! ## Turns and runs -/

theorem materialize_eq (fs : FileSystem) :
    materialize inputs g.target work fs =
      match inputs.locate? fs g.target with
      | none => .error (.targetClassNotFound g.target) fs
      | some root =>
        match root.readEntry fs (classEntryName g.target) with
        | .error cause => .error (.classExtraction g.target root.describe cause) fs
        | .ok bytes =>
          match FileSystem.writeBelow (g.copyPath work) bytes fs with
          | .error cause fs => .error (.classExtraction g.target root.describe cause) fs
          | .ok _ fs => .ok (g.copyOf work root bytes) fs := by
  unfold materialize
  have hget (rest : FileSystem → FileSystem.Action TargetError Materialized) : (get >>= rest) fs = rest fs fs := rfl
  rw [hget]
  cases inputs.locate? fs g.target with
  | none => rfl
  | some root =>
    dsimp only
    cases root.readEntry fs (classEntryName g.target) with
    | error cause => rfl
    | ok bytes =>
      change EStateM.bind (EStateM.adaptExcept _ _) _ fs = _
      simp only [EStateM.bind, EStateM.adaptExcept, copyPath]
      cases FileSystem.writeBelow (scratchPath work (classEntryName g.target)) bytes fs <;> rfl

theorem store_eq (m : Materialized) (d : ClassDraft) (fs : FileSystem) :
    g.store m d fs =
      match d.encodeReadable with
      | .error reason => .error (.injection g.target reason) fs
      | .ok data =>
        match FileSystem.writeBelow m.scratchPath data fs with
        | .error cause fs => .error (.injection g.target (.file cause)) fs
        | .ok u fs => .ok u fs := by
  unfold store
  cases d.encodeReadable with
  | error reason => rfl
  | ok data =>
    simp only [EStateM.adaptExcept]
    cases FileSystem.writeBelow m.scratchPath data fs <;> rfl

/-- A run, by what it does in the file system. -/
theorem run_eq (fs : FileSystem) :
    g.run inputs work fs =
      match inputs.locate? fs g.target with
      | none => (g.skipAll (.targetClassNotFound g.target), fs)
      | some root =>
        match root.readEntry fs (classEntryName g.target) with
        | .error cause => (g.skipAll (.classExtraction g.target root.describe cause), fs)
        | .ok bytes =>
          match FileSystem.writeBelow (g.copyPath work) bytes fs with
          | .error cause fs => (g.skipAll (.classExtraction g.target root.describe cause), fs)
          | .ok _ fs =>
            match g.change (g.copyOf work root bytes) with
            | .error outcomes => (outcomes, fs)
            | .ok (data, results) =>
              match FileSystem.writeBelow (g.copyPath work) data fs with
              | .error cause fs =>
                (outcomes (g.copyOf work root bytes) (some (.injection g.target (.file cause))) results, fs)
              | .ok _ fs => (outcomes (g.copyOf work root bytes) none results, fs) := by
  unfold run
  rw [materialize_eq]
  cases inputs.locate? fs g.target with
  | none => rfl
  | some root =>
    dsimp only
    cases root.readEntry fs (classEntryName g.target) with
    | error cause => rfl
    | ok bytes =>
      dsimp only
      cases FileSystem.writeBelow (g.copyPath work) bytes fs with
      | error cause fs => rfl
      | ok u fs =>
        dsimp only
        unfold change
        cases (g.copyOf work root bytes).decode g.target with
        | error error => rfl
        | ok file =>
          dsimp only
          generalize (ClassDraft.of file).injectRules g.rules = r
          obtain ⟨d, results⟩ := r
          dsimp only
          cases anyApplied results with
          | false => rfl
          | true =>
            rw [store_eq]
            cases d.encodeReadable with
            | error reason => rfl
            | ok data =>
              dsimp only
              simp only [if_true, copyOf]
              cases FileSystem.writeBelow (g.copyPath work) data fs <;> rfl

theorem iterate_finished (outcomes : List (Nat × InjectionOutcome)) (fs : FileSystem) (n : Nat) :
    (g.turn inputs work)^[n] (.finished outcomes, fs) = (.finished outcomes, fs) :=
  Function.iterate_fixed rfl n

/-- Five turns are a run. -/
theorem iterate_turn (fs : FileSystem) :
    (g.turn inputs work)^[5] (.waiting, fs) = (.finished (g.run inputs work fs).1, (g.run inputs work fs).2) := by
  rw [run_eq, Function.iterate_succ_apply]
  unfold turn
  simp only [advance]
  cases inputs.locate? fs g.target with
  | none => exact iterate_finished g inputs work _ fs 4
  | some root =>
    dsimp only
    cases root.readEntry fs (classEntryName g.target) with
    | error cause => exact iterate_finished g inputs work _ fs 4
    | ok bytes =>
      dsimp only
      rw [FileSystem.writeBelow_eq, Function.iterate_succ_apply]
      simp only [bind, EStateM.bind]
      cases createAbove (g.copyPath work) fs with
      | error cause fs => exact iterate_finished g inputs work _ fs 3
      | ok u fs =>
        dsimp only
        rw [Function.iterate_succ_apply]
        dsimp only
        cases writeData (g.copyPath work) bytes fs with
        | error cause fs => exact iterate_finished g inputs work _ fs 2
        | ok u fs =>
          dsimp only
          rw [Function.iterate_succ_apply]
          dsimp only
          cases g.change (g.copyOf work root bytes) with
          | error outcomes => exact iterate_finished g inputs work _ fs 1
          | ok changed =>
            obtain ⟨data, results⟩ := changed
            dsimp only
            rw [FileSystem.writeBelow_eq]
            simp only [bind, EStateM.bind]
            cases createAbove (g.copyPath work) fs with
            | error cause fs => exact iterate_finished g inputs work _ fs 1
            | ok u fs =>
              rw [Function.iterate_one]
              dsimp only
              cases writeData (g.copyPath work) data fs <;> rfl

/-- What a turn does in the file system. -/
theorem advance_snd (p : Progress) (fs : FileSystem) : (g.advance inputs work p fs).2 = fs ∨
    (g.advance inputs work p fs).2 = after (createAbove (g.copyPath work) fs) ∨
    ∃ data, (g.advance inputs work p fs).2 = after (writeData (g.copyPath work) data fs) := by
  cases p with
  | waiting =>
    left
    simp only [advance]
    split
    · rfl
    · split <;> rfl
  | found root bytes =>
    right
    left
    simp only [advance]
    cases createAbove (g.copyPath work) fs <;> rfl
  | ready root bytes =>
    right
    right
    refine ⟨bytes, ?_⟩
    simp only [advance]
    cases writeData (g.copyPath work) bytes fs <;> rfl
  | copied root bytes =>
    simp only [advance]
    split
    · exact .inl rfl
    · right
      left
      cases createAbove (g.copyPath work) fs <;> rfl
  | changed root bytes data results =>
    right
    right
    refine ⟨data, ?_⟩
    simp only [advance]
    cases writeData (g.copyPath work) data fs <;> rfl
  | finished outcomes => exact .inl rfl

/-- A turn writes when the directories are there. -/
theorem hasRoom_advance {above name : String} (hbelow : Path.IsBelow (g.copyPath work) above name) {p : Progress}
    {fs : FileSystem} (h : (g.advance inputs work p fs).1.IsWriting) :
    (g.advance inputs work p fs).2.HasRoom (g.copyPath work) above := by
  cases p with
  | waiting =>
    simp only [advance] at h
    split at h
    · cases h
    · split at h <;> cases h
  | found root bytes =>
    simp only [advance] at h ⊢
    cases hcreate : createAbove (g.copyPath work) fs with
    | error cause fs' =>
      rw [hcreate] at h
      cases h
    | ok u fs' => exact FileSystem.hasRoom_of_createAbove hbelow hcreate
  | ready root bytes =>
    simp only [advance] at h
    split at h <;> cases h
  | copied root bytes =>
    simp only [advance] at h ⊢
    cases hchange : g.change (g.copyOf work root bytes) with
    | error outcomes =>
      rw [hchange] at h
      cases h
    | ok changed =>
      rw [hchange] at h
      cases hcreate : createAbove (g.copyPath work) fs with
      | error cause fs' =>
        simp only [hcreate] at h
        cases h
      | ok u fs' => exact FileSystem.hasRoom_of_createAbove hbelow hcreate
  | changed root bytes data results =>
    simp only [advance] at h
    split at h <;> cases h
  | finished outcomes => cases h

/-! ## Turns among others -/

section

variable {g inputs work}
variable {made written : List String → Prop} {above name : String} {fs fs' : FileSystem} {p : Progress}

theorem ahead_advance (hbelow : Path.IsBelow (g.copyPath work) above name)
    (hmade : ∀ front step, OnWay (fs.start (g.copyPath work)) (Path.steps above) (front ++ [step]) → Fits step →
      made (front ++ [step])) (hwritten : written (fs.place (g.copyPath work))) :
    Ahead made written fs (g.advance inputs work p fs).2 := by
  rcases g.advance_snd inputs work p fs with h | h | ⟨data, h⟩
  · rw [h]
    exact .refl
  · rw [h]
    exact FileSystem.ahead_createAbove hbelow hmade
  · rw [h]
    have hwrite : Ahead made (· = fs.place (g.copyPath work)) fs (after (writeData (g.copyPath work) data fs)) :=
      FileSystem.ahead_writeData hbelow data
    apply hwrite.mono
    rintro place rfl
    exact hwritten

/-- What others make and write is out of the way of a copy. -/
structure Clear (made written : List String → Prop) (fs : FileSystem) (path above : String) : Prop where
  fits (front : List String) (step : String) : made (front ++ [step]) → Fits step
  way (place : List String) : OnWay (fs.start path) (Path.steps above) place → ¬ written place
  start : ¬ written (fs.start path) ∧ ¬ made (fs.start path)
  own : ¬ written (fs.place path) ∧ ¬ made (fs.place path)

theorem Clear.congr {path : String} (h : Clear made written fs path above)
    (hdirectory : fs'.workingDirectory = fs.workingDirectory) : Clear made written fs' path above := by
  have hstart : fs'.start path = fs.start path := by
    rw [FileSystem.start, FileSystem.start, hdirectory]
  have hplace : fs'.place path = fs.place path := congrArg (Path.place · path) hdirectory
  exact ⟨h.fits, hstart ▸ h.way, hstart ▸ h.start, hplace ▸ h.own⟩

/-- A turn does the same in a file system that is ahead, if the copy and the roots are out of the way of others. -/
theorem advance_lockstep (h : Ahead made written fs fs') (hbelow : Path.IsBelow (g.copyPath work) above name)
    (hclear : Clear made written fs (g.copyPath work) above)
    (hroots : ∀ root ∈ inputs.roots, fs.node? (root.pathOf (classEntryName g.target)) =
      fs'.node? (root.pathOf (classEntryName g.target)))
    (hroom : p.IsWriting → fs.HasRoom (g.copyPath work) above) :
    (g.advance inputs work p fs).1 = (g.advance inputs work p fs').1 ∧
      Ahead made written (g.advance inputs work p fs).2 (g.advance inputs work p fs').2 := by
  have hstart := h.eq_of_not_made hclear.start.1 hclear.start.2
  have hown := h.eq_of_not_made hclear.own.1 hclear.own.2
  have hcreate := FileSystem.lockstep_createAbove h hbelow hclear.fits hclear.way hstart
  have hwrite (hroom : fs.HasRoom (g.copyPath work) above) (data : List UInt8) :=
    FileSystem.lockstep_writeData h hbelow hroom hclear.way hstart hown data
  cases p with
  | waiting =>
    simp only [advance]
    rw [← Inputs.locate?_congr hroots]
    cases hlocate : inputs.locate? fs g.target with
    | none => exact ⟨rfl, h⟩
    | some root =>
      have hmem : root ∈ inputs.roots := List.mem_of_find?_eq_some hlocate
      have hread := Root.readEntry_congr (hroots root hmem) (List.find?_some hlocate)
      dsimp only
      rw [← hread]
      cases root.readEntry fs (classEntryName g.target) <;> exact ⟨rfl, h⟩
  | found root bytes =>
    simp only [advance]
    rcases hcreate.ok_or_error with ⟨u, s, s', hr, hr', h⟩ | ⟨e, s, s', hr, hr', h⟩
    · rw [hr, hr']
      exact ⟨rfl, h⟩
    · rw [hr, hr']
      exact ⟨rfl, h⟩
  | ready root bytes =>
    simp only [advance]
    rcases (hwrite (hroom trivial) bytes).ok_or_error with ⟨u, s, s', hr, hr', h⟩ | ⟨e, s, s', hr, hr', h⟩
    · rw [hr, hr']
      exact ⟨rfl, h⟩
    · rw [hr, hr']
      exact ⟨rfl, h⟩
  | copied root bytes =>
    simp only [advance]
    cases g.change (g.copyOf work root bytes) with
    | error outcomes => exact ⟨rfl, h⟩
    | ok changed =>
      dsimp only
      rcases hcreate.ok_or_error with ⟨u, s, s', hr, hr', h⟩ | ⟨e, s, s', hr, hr', h⟩
      · rw [hr, hr']
        exact ⟨rfl, h⟩
      · rw [hr, hr']
        exact ⟨rfl, h⟩
  | changed root bytes data results =>
    simp only [advance]
    rcases (hwrite (hroom trivial) data).ok_or_error with ⟨u, s, s', hr, hr', h⟩ | ⟨e, s, s', hr, hr', h⟩
    · rw [hr, hr']
      exact ⟨rfl, h⟩
    · rw [hr, hr']
      exact ⟨rfl, h⟩
  | finished outcomes => exact ⟨rfl, h⟩

end

end TargetGroup

end Registrar
