import Registrar.Proofs.Locating

/-!
# What assembling leaves alone

* `grows_assemble` : the file of the archive is all that is written, also when assembling fails, and not even this is
  written if the archive cannot be begun;
* `Apart` : the archive is not put where something is that it is assembled of. `Collects.before` : what such roots hold
  once the archive is begun they held before;
* `assemble_spares` : what an assembly leaves as it was, and what the archive holds. `not_sparesInputs` : not so where
  the archive is not apart.

A file is known by its place here, since there are no links.
-/

namespace Registrar

open FileSystem (Grows after succeeds createFile)

/-! ## What is written -/

section

variable {unfinished : Unfinished} {inputs : Inputs} {substitutions : List (String × String)} {output : String}
variable {written : List String → Prop} {fs fs₁ : FileSystem}

theorem grows_createFile {content : File} (hwritten : written (fs.destination output)) :
    Grows written fs (after (createFile output content fs)) := by
  rw [createFile, FileSystem.after_adaptExcept]
  exact FileSystem.grows_write hwritten

/-- An archive that cannot be begun is not written at all. -/
theorem grows_of_not_begun {error : AccessError} (h : beginArchive output fs = .error error fs₁) :
    Grows written fs fs₁ := by
  have hcreate {fs₀ : FileSystem} (h : createFile output (.ofBytes []) fs₀ = .error error fs₁) : fs₁ = fs₀ := by
    unfold createFile EStateM.adaptExcept at h
    split at h
    · next hwrite =>
      cases h
      exact FileSystem.write_eq_error hwrite
    · cases h
  unfold beginArchive at h
  cases habove : Path.parent? output with
  | none =>
    rw [habove] at h
    rw [hcreate h]
    exact .refl
  | some above =>
    rw [habove] at h
    have hgrows : Grows written fs (after (FileSystem.createDirectories above fs)) := FileSystem.grows_createDirectories
    change EStateM.bind _ _ fs = _ at h
    unfold EStateM.bind at h
    cases hmake : FileSystem.createDirectories above fs with
    | error cause fs₀ =>
      rw [hmake] at h hgrows
      cases h
      exact hgrows
    | ok u fs₀ =>
      rw [hmake] at h hgrows
      rw [hcreate h]
      exact hgrows

theorem after_bind {ε α β : Type} (x : FileSystem.Action ε α) (f : α → FileSystem.Action ε β) (fs : FileSystem) :
    after ((x >>= f) fs) = match x fs with
      | .ok a fs' => after (f a fs')
      | .error _ fs' => fs' := by
  change after (EStateM.bind x f fs) = _
  unfold EStateM.bind
  cases x fs <;> rfl

/-- Once the archive is begun, its file is written once more and nothing else. -/
theorem exists_after_assemble (unfinished : Unfinished) (inputs : Inputs) (substitutions : List (String × String))
    (hbegin : beginArchive output fs = .ok () fs₁) :
    ∃ content, after (assemble unfinished inputs substitutions output fs) = after (createFile output content fs₁) := by
  have hget : (get : FileSystem.Action AccessError FileSystem) fs₁ = .ok fs₁ fs₁ := rfl
  unfold assemble
  rw [after_bind, hbegin]
  dsimp only
  rw [after_bind, hget]
  dsimp only
  cases inputs.roots.forM (AssemblyState.acceptRoot (fs₁.during output unfinished) substitutions) .start with
  | ok u s =>
    refine ⟨.ofArchive s.archive, ?_⟩
    rw [after_bind]
    cases createFile output (.ofArchive s.archive) fs₁ <;> rfl
  | error cause s =>
    refine ⟨.ofArchive s.archive, ?_⟩
    rw [after_bind]
    cases createFile output (.ofArchive s.archive) fs₁ <;> rfl

/-- An assembly writes the file of the archive, if this can be begun, and else nothing. -/
theorem grows_assemble (hwritten : succeeds (beginArchive output fs) = true → written (fs.destination output)) :
    Grows written fs (after (assemble unfinished inputs substitutions output fs)) := by
  cases hbegin : beginArchive output fs with
  | error cause fs₁ =>
    unfold assemble
    rw [after_bind, hbegin]
    exact grows_of_not_begun hbegin
  | ok u fs₁ =>
    replace hwritten : written (fs.destination output) := hwritten (by rw [hbegin]; rfl)
    have hbegun : Grows written fs fs₁ := by
      refine (FileSystem.grows_beginArchive hbegin).mono ?_
      rintro q rfl
      exact hwritten
    obtain ⟨content, hafter⟩ := exists_after_assemble unfinished inputs substitutions hbegin
    rw [hafter]
    exact hbegun.trans (grows_createFile (hbegun.destination_eq output ▸ hwritten))

end

/-! ## What the roots held before -/

/-- The archive is not put where something is that it is assembled of. What it is assembled of does not get in reach
only with the directories that are made for it, and those of them that are made below a directory that it is assembled
of have paths that are short enough. -/
structure Apart (inputs : Inputs) (substitutions : List (String × String)) (output : String) (fs : FileSystem) :
    Prop where
  directories : ∀ path ∈ inputs.directories, ¬ fs.destination path <+: fs.destination output
  archives : ∀ path ∈ inputs.archives, fs.destination path ≠ fs.destination output
  copies : ∀ name copy, substitutions.lookup name = some copy → fs.destination copy ≠ fs.destination output
  reached : ∀ root ∈ inputs.roots, fs.exists? root.path = true ∨ Path.IsPlain root.path
  reachedCopies : ∀ name copy, substitutions.lookup name = some copy → fs.exists? copy = true ∨ Path.IsPlain copy
  short : ∀ fs₁, beginArchive output fs = .ok () fs₁ → ∀ path ∈ inputs.directories, ∀ q, q ≠ [] →
    fs.root.nodeAt (fs.destination path ++ q) = none → fs₁.root.nodeAt (fs.destination path ++ q) ≠ none →
    (Path.join path (Path.ofPieces q)).utf8ByteSize < Path.maxLength

section

variable {place : List String} {fs fs₁ : FileSystem} {archive : Archive} {root : Root} {now : Nat} {own : List Item}

/-- What a root holds it held before, and none of it is the file that was written. -/
theorem Root.items_before (hgrows : Grows (· = place) fs fs₁) (hsound : fs.root.Sound)
    (hown : root.Items (.still fs₁) archive now own) (hthere : fs.exists? root.path = true ∨ Path.IsPlain root.path)
    (hdirectory : ∀ path, root = .directory path → ¬ fs.destination path <+: place ∧ ∀ q, q ≠ [] →
      fs.root.nodeAt (fs.destination path ++ q) = none → fs₁.root.nodeAt (fs.destination path ++ q) ≠ none →
      (Path.join path (Path.ofPieces q)).utf8ByteSize < Path.maxLength)
    (harchive : ∀ path, root = .archive path → fs.destination path ≠ place) :
    root.Items (.still fs) archive now own ∧ ∀ item ∈ own, fs.destination item.source.path ≠ place ∧
      ∀ now data, item.source.Reads (.still fs₁) archive now data → item.source.Reads (.still fs) archive now data := by
  cases root with
  | directory path =>
    obtain ⟨hbelow, hshort⟩ := hdirectory path rfl
    obtain ⟨names, ⟨hascending, hmem⟩, hunblocked, rfl⟩ := hown
    have hclear (q : List String) : ¬ fs.destination path ++ q = place :=
      fun heq => hbelow (heq ▸ List.prefix_append _ q)
    have hlists (name : String) : name ∈ names ↔ fs.Lists path name :=
      ⟨fun hname => hgrows.lists_before_of_clear hsound ((hmem name).1 hname) hthere hclear hshort,
        fun hlists => (hmem name).2 (hgrows.lists hlists)⟩
    refine ⟨⟨names, ⟨hascending, hlists⟩, hgrows.unblocked_before hunblocked, rfl⟩, fun item hitem => ?_⟩
    obtain ⟨name, hname, rfl⟩ := List.mem_map.1 hitem
    have hlisted := (hlists name).1 hname
    have hdirect := hlisted.isDirect hsound
    have hplace : fs.destination (Path.join path name) ≠ place := by
      rw [FileSystem.destination_join_of_isDirect fs path hdirect]
      exact hclear _
    refine ⟨hplace, fun now data hreads => ?_⟩
    obtain ⟨_, _, _, hfind, -⟩ := hlisted
    exact hgrows.yields_join_before hfind hdirect hreads hplace
  | archive path =>
    have hplace := harchive path rfl
    obtain ⟨entries, hstores, rfl⟩ := hown
    refine ⟨⟨entries, hgrows.stores_before hstores hthere hplace, rfl⟩, fun item hitem => ?_⟩
    obtain ⟨x, -, rfl⟩ := List.mem_map.1 hitem
    refine ⟨hplace, fun now data hreads => ?_⟩
    obtain ⟨entries', e, hstores', hentry, hcontent⟩ := hreads
    exact ⟨entries', e, hgrows.stores_before hstores' hthere hplace, hentry, hcontent⟩

theorem Collects.before (hgrows : Grows (· = place) fs fs₁) (hsound : fs.root.Sound) {before items : List Item}
    {roots : List Root} (h : Collects (.still fs₁) archive before roots items)
    (hthere : ∀ root ∈ roots, fs.exists? root.path = true ∨ Path.IsPlain root.path)
    (hdirectories : ∀ path, .directory path ∈ roots → ¬ fs.destination path <+: place ∧ ∀ q, q ≠ [] →
      fs.root.nodeAt (fs.destination path ++ q) = none → fs₁.root.nodeAt (fs.destination path ++ q) ≠ none →
      (Path.join path (Path.ofPieces q)).utf8ByteSize < Path.maxLength)
    (harchives : ∀ path, .archive path ∈ roots → fs.destination path ≠ place) :
    Collects (.still fs) archive before roots items ∧ ∀ item ∈ items, fs.destination item.source.path ≠ place ∧
      ∀ now data, item.source.Reads (.still fs₁) archive now data → item.source.Reads (.still fs) archive now data := by
  induction h with
  | nil => exact ⟨.nil, by simp⟩
  | cons hown _ ih =>
    rw [List.forall_mem_cons] at hthere
    obtain ⟨hfirst, hitems⟩ := Root.items_before hgrows hsound hown hthere.1
      (fun path hpath => hdirectories path (hpath ▸ List.mem_cons_self))
      (fun path hpath => harchives path (hpath ▸ List.mem_cons_self))
    obtain ⟨hothers, hrest⟩ := ih hthere.2 (fun path hpath => hdirectories path (List.mem_cons_of_mem _ hpath))
      (fun path hpath => harchives path (List.mem_cons_of_mem _ hpath))
    exact ⟨.cons hfirst hothers, fun item hitem => (List.mem_append.1 hitem).elim (hitems item) (hrest item)⟩

end

section

variable {unfinished : Unfinished} {inputs : Inputs} {substitutions : List (String × String)} {output : String}
variable {fs : FileSystem}

/-- **Inputs are spared.** Whether assembling succeeds or not, every file that is found before it is found after it with
the same content, unless it stands where the archive is put; if the archive cannot be begun, every file at all. If it
succeeds, and the archive is apart from what it is assembled of, it is the one merge of what the roots and the copies
held before, and it has no entry for its own file. -/
theorem assemble_spares (hsound : fs.root.Sound) :
    (∀ path place access content, fs.find path = .ok (place, .file access content) →
      fs.destination path ≠ fs.destination output ∨ succeeds (beginArchive output fs) = false →
      (after (assemble unfinished inputs substitutions output fs)).find path = .ok (place, .file access content)) ∧
    ∀ report fs', assemble unfinished inputs substitutions output fs = .ok report fs' →
      Apart inputs substitutions output fs → ∃ items archive place access,
        fs'.find output = .ok (place, .file access (.ofArchive archive)) ∧
        Collects (.still fs) archive [] inputs.roots items ∧ Merges (.still fs) substitutions items archive report ∧
        (∀ item ∈ items, fs.destination item.source.path ≠ fs.destination output) ∧
        ∀ items' archive' report', Collects (.still fs) archive' [] inputs.roots items' →
          Merges (.still fs) substitutions items' archive' report' → archive' = archive := by
  constructor
  · intro path place access content hfind hpath
    have hgrows : Grows (· ≠ fs.destination path) fs (after (assemble unfinished inputs substitutions output fs)) := by
      refine grows_assemble fun hbegun heq => ?_
      rcases hpath with hne | hfails
      · exact hne heq.symm
      · rw [hfails] at hbegun
        cases hbegun
    obtain ⟨content', hfind', hsame⟩ := hgrows.find_file hfind
    rwa [hsame fun hne => hne rfl] at hfind'
  · intro report fs' h hapart
    obtain ⟨fs₁, items, s, hbegin, hitems, hmerged, rfl, hwrite⟩ := merged_of_assemble hsound h
    have hgrows := FileSystem.grows_beginArchive hbegin
    have haround := around_during hsound hbegin unfinished
    rw [hgrows.destination_eq] at haround
    have harchives : ∀ path, .archive path ∈ inputs.roots → fs.destination path ≠ fs.destination output :=
      fun path hpath => hapart.archives path (by simpa [Inputs.roots] using hpath)
    have hdirectories : ∀ path, .directory path ∈ inputs.roots → path ∈ inputs.directories :=
      fun path hpath => by simpa [Inputs.roots] using hpath
    -- what shows while the archive is written shows when it is begun, and what shows then showed before
    have hstill := hitems.still haround fun path hpath => by
      rw [hgrows.destination_eq]
      exact harchives path hpath
    obtain ⟨hbefore, hread⟩ := hstill.before hgrows hsound hapart.reached (fun path hpath =>
      ⟨hapart.directories path (hdirectories path hpath), hapart.short fs₁ hbegin path (hdirectories path hpath)⟩)
      harchives
    have hmerges : Merges (.still fs) substitutions items s.archive (s.report output) := by
      refine (hmerged.merges output).of_reads (fun name copy hcopy now data hreads => ?_)
        fun item hitem now data hreads => ?_
      · have hplace := hapart.copies name copy hcopy
        have hyields := (haround.yields_iff _ _ (by rwa [hgrows.destination_eq])).1 hreads
        exact hgrows.yields_before hyields (hapart.reachedCopies name copy hcopy) hplace
      · obtain ⟨hplace, himp⟩ := hread item hitem
        exact himp now data ((Source.reads_iff haround (by rwa [hgrows.destination_eq])).1 hreads)
    obtain ⟨access, hfile⟩ := FileSystem.find_of_write hwrite
    refine ⟨items, s.archive, _, access, hfile, hbefore, hmerges, fun item hitem => (hread item hitem).1, ?_⟩
    intro items' archive' report' hitems' hmerges'
    obtain rfl := hbefore.unique hitems'
    exact hmerges'.unique hmerges

theorem apart_overlapping : Apart overlappingRoots [("B.class", "copy")] "out.jar" overlapping := by
  have hlookup : ∀ name copy, List.lookup name [("B.class", "copy")] = some copy → copy = "copy" := by
    intro name copy h
    rw [List.lookup_cons] at h
    split at h
    · exact (Option.some.inj h).symm
    · cases h
  have hplaces : overlapping.destination "copy" ≠ overlapping.destination "out.jar" ∧
      overlapping.exists? "copy" = true ∧ ∀ root ∈ overlappingRoots.roots, overlapping.exists? root.path = true := by
    decide +kernel
  obtain ⟨hplace, hthere, hroots⟩ := hplaces
  refine ⟨by decide +kernel, by decide +kernel, fun name copy h => ?_, fun root hroot => .inl (hroots root hroot),
    fun name copy h => .inl ?_, fun fs₁ hbegin path hpath q _ hnone hnew => ?_⟩
  · rw [hlookup name copy h]
    exact hplace
  · rw [hlookup name copy h]
    exact hthere
  · -- no directory is made for the archive
    obtain rfl : path = "in" := List.mem_singleton.1 hpath
    have hsame : (after (beginArchive "out.jar" overlapping)).root.get? ["in"] = overlapping.root.get? ["in"] := by rfl
    rw [hbegin] at hsame
    refine absurd ?_ hnew
    show fs₁.root.nodeAt (["in"] ++ q) = none
    rw [FileTree.nodeAt, FileTree.get?_append, show fs₁.root.get? ["in"] = overlapping.root.get? ["in"] from hsame,
      ← FileTree.get?_append]
    exact hnone

theorem assemble_spares_overlapping :
    (after (assemble .stored overlappingRoots [("B.class", "copy")] "out.jar" overlapping)).find "in/A.class" =
      .ok (["in", "A.class"], .file .full (.ofBytes [1])) ∧
    ∃ report fs' items archive place access,
      assemble .stored overlappingRoots [("B.class", "copy")] "out.jar" overlapping = .ok report fs' ∧
      fs'.find "out.jar" = .ok (place, .file access (.ofArchive archive)) ∧
      Collects (.still overlapping) archive [] overlappingRoots.roots items ∧
      Merges (.still overlapping) [("B.class", "copy")] items archive report := by
  obtain ⟨hkept, hmerged⟩ := @assemble_spares .stored overlappingRoots [("B.class", "copy")] "out.jar" overlapping
    sound_overlapping
  have hbegin : beginArchive "out.jar" overlapping = .ok () (after (beginArchive "out.jar" overlapping)) :=
    FileSystem.eq_ok_of_succeeds (by decide +kernel)
  obtain ⟨report, fs', h⟩ := exists_assemble .stored sound_overlapping hbegin (show ∀ root ∈ overlappingRoots.roots,
    root.isReady (after (beginArchive "out.jar" overlapping))
      ((after (beginArchive "out.jar" overlapping)).destination "out.jar") [("B.class", "copy")] = true by decide +kernel)
  obtain ⟨items, archive, place, access, hfile, hitems, hmerges, -⟩ := hmerged report fs' h apart_overlapping
  have hfind : overlapping.find "in/A.class" = .ok (["in", "A.class"], .file .full (.ofBytes [1])) := by rfl
  exact ⟨hkept _ _ _ _ hfind (.inl (by decide +kernel)), report, fs', items, archive, place, access, h, hfile, hitems,
    hmerges⟩

end

/-! ## Archives that are not apart -/

/-- All that is assembled stays as it was, and the archive is a merge of what the roots and the copies held before. -/
structure SparesInputs (unfinished : Unfinished) (inputs : Inputs) (substitutions : List (String × String))
    (output : String) (fs : FileSystem) : Prop where
  archives : ∀ path ∈ inputs.archives, ∀ data, fs.Yields path data →
    (after (assemble unfinished inputs substitutions output fs)).Yields path data
  files : ∀ path ∈ inputs.directories, ∀ name, fs.Lists path name → ∀ data, fs.Yields (Path.join path name) data →
    (after (assemble unfinished inputs substitutions output fs)).Yields (Path.join path name) data
  merges : ∀ report fs', assemble unfinished inputs substitutions output fs = .ok report fs' →
    ∃ items archive place access, fs'.find output = .ok (place, .file access (.ofArchive archive)) ∧
      Collects (.still fs) archive [] inputs.roots items ∧ Merges (.still fs) substitutions items archive report

/-- Where the content of an entry is read. -/
def sourceOf (substitutions : List (String × String)) (items : List Item) (name : String) : Option Source :=
  ((substitutions.lookup name).map .file).or ((items.find? (·.name == name)).map (·.source))

theorem Belongs.reads {during : Surroundings} {substitutions : List (String × String)} {archive : Archive}
    {items : List Item} {now : Nat} {name : String} {data : List UInt8} {source : Source}
    (h : Belongs during substitutions archive items now name data)
    (hsource : sourceOf substitutions items name = some source) : source.Reads during archive now data := by
  unfold Belongs at h
  unfold sourceOf at hsource
  split at h
  · next copy hcopy =>
    rw [hcopy] at hsource
    cases hsource
    exact h
  · next hnone =>
    obtain ⟨item, hfirst, hreads⟩ := h
    rw [hnone, hfirst] at hsource
    cases hsource
    exact hreads

section

variable {inputs : Inputs} {substitutions : List (String × String)} {output : String} {fs fs₁ : FileSystem}
variable {items items' : List Item}

/-- What an archive that spares its inputs is a merge of: what the roots held before, and what they hold when it is
begun. -/
theorem SparesInputs.exists_merges (h : SparesInputs .stored inputs substitutions output fs) (hsound : fs.root.Sound)
    (hbegin : beginArchive output fs = .ok () fs₁)
    (hready : ∀ root ∈ inputs.roots, root.isReady fs₁ (fs₁.destination output) substitutions = true)
    (hbefore : collectAll fs [] inputs.roots = .ok items) (hcollect : collectAll fs₁ [] inputs.roots = .ok items') :
    ∃ report archive, Merges (.still fs) substitutions items archive report ∧
      Merges (fs₁.during output .stored) substitutions items' archive report := by
  obtain ⟨report, fs', archive, place, access, hassemble, hfile, hmerges⟩ :=
    Registrar.exists_merges .stored hsound hbegin hready hcollect
  obtain ⟨items₀, archive', place', access', hfile', hitems, hmerges'⟩ := h.merges report fs' hassemble
  obtain rfl := eq_of_find_ofArchive hfile hfile'
  obtain rfl := hitems.unique (collects_of_collectAll hsound archive hbefore)
  exact ⟨report, archive, hmerges', hmerges⟩

/-- The archive has an entry for a file that no root held before. -/
theorem not_sparesInputs_of_names (items items' : List Item) (hsound : fs.root.Sound)
    (hbegin : beginArchive output fs = .ok () fs₁)
    (hready : ∀ root ∈ inputs.roots, root.isReady fs₁ (fs₁.destination output) substitutions = true)
    (hbefore : collectAll fs [] inputs.roots = .ok items) (hcollect : collectAll fs₁ [] inputs.roots = .ok items')
    (hnames : (items.map (·.name)).eraseDups ≠ (items'.map (·.name)).eraseDups) :
    ¬ SparesInputs .stored inputs substitutions output fs := by
  intro h
  obtain ⟨report, archive, hmerges, hmerges'⟩ := h.exists_merges hsound hbegin hready hbefore hcollect
  exact hnames (hmerges.names.symm.trans hmerges'.names)

/-- Other bytes are read for the first entry than were there before. -/
theorem not_sparesInputs_of_bytes {name path : String} (items : List Item) (data data' : List UInt8)
    (hsound : fs.root.Sound) (hbegin : beginArchive output fs = .ok () fs₁)
    (hready : ∀ root ∈ inputs.roots, root.isReady fs₁ (fs₁.destination output) substitutions = true)
    (hbefore : collectAll fs [] inputs.roots = .ok items) (hcollect : collectAll fs₁ [] inputs.roots = .ok items)
    (hfirst : (items.map (·.name)).eraseDups[0]? = some name)
    (hsource : sourceOf substitutions items name = some (.file path))
    (hread : fs.readFile path = .ok data) (hread' : (fs₁.during output .stored [] []).readFile path = .ok data')
    (hne : data ≠ data') : ¬ SparesInputs .stored inputs substitutions output fs := by
  intro h
  obtain ⟨report, archive, hmerges, hmerges'⟩ := h.exists_merges hsound hbegin hready hbefore hcollect
  rw [← hmerges.names, List.getElem?_map, Option.map_eq_some_iff] at hfirst
  obtain ⟨e, he, rfl⟩ := hfirst
  obtain ⟨stored, hstored, hbelongs⟩ := hmerges.content 0 e he
  obtain ⟨stored', hstored', hbelongs'⟩ := hmerges'.content 0 e he
  obtain rfl := EntryContent.bytes.inj (hstored.symm.trans hstored')
  have hyields : fs.Yields path stored := hbelongs.reads hsource
  have hyields' : (fs₁.during output .stored [] []).Yields path stored := hbelongs'.reads hsource
  have heq := hyields.unique (FileSystem.readFile_eq_ok_iff.1 hread)
  have heq' := hyields'.unique (FileSystem.readFile_eq_ok_iff.1 hread')
  exact hne (heq.symm.trans heq')

end

/-- The archive may be put in place of an archive or of a file that it is assembled of, in place of a copy, or in a
directory that it is assembled of; and a directory may be reached only once the one for the archive is made. -/
theorem not_sparesInputs :
    ¬ SparesInputs .stored ⟨[], ["in.jar"]⟩ [] "in.jar" overlapping ∧
    ¬ SparesInputs .stored ⟨["in"], []⟩ [] "in/A.class" overlapping ∧
    ¬ SparesInputs .stored ⟨["in"], []⟩ [("A.class", "copy")] "copy" overlapping ∧
    ¬ SparesInputs .stored ⟨["new"], []⟩ [] "new/out.jar" overlapping ∧
    ¬ SparesInputs .stored ⟨["new/../in"], []⟩ [] "new/out.jar" overlapping := by
  have hbegin {output : String} (h : succeeds (beginArchive output overlapping) = true) :
      beginArchive output overlapping = .ok () (after (beginArchive output overlapping)) :=
    FileSystem.eq_ok_of_succeeds h
  refine ⟨fun h => ?_, ?_, ?_, ?_, ?_⟩
  · have hemptied : (after (assemble .stored ⟨[], ["in.jar"]⟩ [] "in.jar" overlapping)).readFile "in.jar" ≠
        overlapping.readFile "in.jar" := by
      decide +kernel
    obtain ⟨data, hread⟩ : ∃ data, overlapping.readFile "in.jar" = .ok data := ⟨_, rfl⟩
    have hkept := h.archives "in.jar" (by simp) data (FileSystem.readFile_eq_ok_iff.1 hread)
    exact hemptied ((FileSystem.readFile_eq_ok_iff.2 hkept).trans hread.symm)
  · exact not_sparesInputs_of_bytes [⟨"A.class", .file "in/A.class"⟩] [1] [] sound_overlapping
      (hbegin (by decide +kernel)) (by decide +kernel) (by decide +kernel) (by decide +kernel) rfl rfl
      (by decide +kernel) (by decide +kernel) (by decide)
  · exact not_sparesInputs_of_bytes [⟨"A.class", .file "in/A.class"⟩] [9] [] sound_overlapping
      (hbegin (by decide +kernel)) (by decide +kernel) (by decide +kernel) (by decide +kernel) rfl rfl
      (by decide +kernel) (by decide +kernel) (by decide)
  · exact not_sparesInputs_of_names [] [⟨"out.jar", .file "new/out.jar"⟩] sound_overlapping
      (hbegin (by decide +kernel)) (by decide +kernel) (by decide +kernel) (by decide +kernel) (by decide)
  · exact not_sparesInputs_of_names [] [⟨"A.class", .file "new/../in/A.class"⟩] sound_overlapping
      (hbegin (by decide +kernel)) (by decide +kernel) (by decide +kernel) (by decide +kernel) (by decide)

end Registrar
