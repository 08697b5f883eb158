import Registrar.Proofs.Deliveries
import Registrar.Proofs.Locating

/-!
# Changed classes reach the archive

* `RunWrites` : the places at which files are written while classes are changed and an archive is assembled;
* `CarriesCopies` : the archive has an entry for each changed class, with the content of its copy;
* `Inputs.Reaches` : the roots up to the first one that lists a file;
* `mem_names_of_held` : a class that a root held at some time has an entry. `exists_reached` : what is read of the first
  file with a name was there before, in the first root that listed it;
* `carries_to_archive` : after any schedule the archive carries the copies, and its other entries hold what the first
  root that lists them had before;
* `Workload.not_carries` : not so for files that are written meanwhile, nor below a path that leads anywhere only later.
-/

namespace Registrar

open FileSystem (Grows)

/-! ## What is carried into the archive -/

/-- The places at which files are written while classes are changed and an archive is assembled. -/
def RunWrites (rules : List Rule) (work output : String) (fs : FileSystem) (place : List String) : Prop :=
  RuleCopies rules work fs place ∨ place = fs.destination output

/-- No root in front of a root lists a file. -/
def Inputs.Reaches (inputs : Inputs) (fs : FileSystem) (name : String) (root : Root) : Prop :=
  ∃ front behind, inputs.roots = front ++ root :: behind ∧ ∀ r ∈ front, ¬ r.Lists fs name

/-- An archive has just one entry for each class into which calls were put and whose name has no empty part. The entry
holds what the copy of the class holds, and is listed once as taken from a copy. -/
def CarriesCopies (rules : List Rule) (outcomes : List InjectionOutcome) (fs : FileSystem) (archive : Archive)
    (report : AssemblyReport) : Prop :=
  ∀ (i : Nat) (r : Rule) (entry path : String) (registered methods : Nat), rules[i]? = some r →
    outcomes[i]? = some (.injected entry path registered methods) → (∀ part ∈ Path.pieces r.targetClass, part ≠ "") →
    entry = classEntryName r.targetClass ∧ ∃ data, fs.readFile path = .ok data ∧
      archive.filter (·.name == entry) = [⟨entry, .bytes data⟩] ∧ report.substituted.count entry = 1

/-- A class is left alone if no calls were put into it. -/
def IsUnchanged (outcomes : List InjectionOutcome) (entry : String) : Prop :=
  ∀ path registered methods, .injected entry path registered methods ∉ outcomes

theorem mem_joinSlashes {parts : List (List Char)} {part : List Char} (hpart : part ∈ parts) {c : Char} (hc : c ∈ part) :
    c ∈ Path.joinSlashes parts := by
  induction parts with
  | nil => cases hpart
  | cons first parts ih =>
    rcases List.mem_cons.1 hpart with rfl | hpart
    · cases parts with
      | nil => exact hc
      | cons second parts =>
        rw [Path.joinSlashes_cons _ (by simp)]
        exact List.mem_append_left _ hc
    · rw [Path.joinSlashes_cons _ (List.ne_nil_of_mem hpart)]
      exact List.mem_append_right _ (List.mem_cons_of_mem _ (ih hpart))

theorem targetClass_of_ofConfig {c : RuleConfig} {r : Rule} (h : Rule.ofConfig c = .ok r) :
    r.targetClass = internalName c.targetClass := by
  unfold Rule.ofConfig at h
  dsimp only at h
  split at h
  · cases h
  · split at h
    · cases h
    · obtain ⟨included, -, h⟩ := Except.bind_eq_ok_iff.1 h
      obtain ⟨excluded, -, h⟩ := Except.bind_eq_ok_iff.1 h
      cases h
      rfl

/-- The class that a rule names has no points in its name. -/
theorem isProperName_of_ofConfig {c : RuleConfig} {r : Rule} (h : Rule.ofConfig c = .ok r)
    (hparts : ∀ part ∈ Path.pieces r.targetClass, part ≠ "") : IsProperName r.targetClass := by
  have hpoint : '.' ∉ r.targetClass.toList := by
    rw [targetClass_of_ofConfig h, internalName, String.toList_ofList, List.mem_map]
    rintro ⟨letter, -, heq⟩
    by_cases hletter : letter = '.'
    · simp [hletter] at heq
    · rw [if_neg hletter] at heq
      exact hletter heq
  intro part hpart
  refine ⟨hparts part hpart, fun hc => hpoint ?_⟩
  obtain ⟨text, htext, rfl⟩ := List.mem_map.1 hpart
  rw [String.toList_ofList] at hc
  rw [← Path.joinSlashes_splitSlashes r.targetClass.toList]
  exact mem_joinSlashes htext hc

theorem mem_substitutions {outcomes : List InjectionOutcome} {entry path : String} :
    (entry, path) ∈ substitutions outcomes ↔
      ∃ registered methods, .injected entry path registered methods ∈ outcomes := by
  unfold substitutions
  rw [List.mem_filterMap]
  constructor
  · rintro ⟨outcome, hmem, heq⟩
    cases outcome <;> cases heq
    exact ⟨_, _, hmem⟩
  · rintro ⟨registered, methods, hmem⟩
    exact ⟨_, hmem, rfl⟩

/-- A changed class is taken from its copy, if it has only one. -/
theorem lookup_substitutions {outcomes : List InjectionOutcome} {entry path : String} {registered methods : Nat}
    (hmem : .injected entry path registered methods ∈ outcomes)
    (hsame : ∀ other registered methods, .injected entry other registered methods ∈ outcomes → other = path) :
    (substitutions outcomes).lookup entry = some path := by
  cases hlookup : (substitutions outcomes).lookup entry with
  | none =>
    rw [List.lookup_eq_none_iff] at hlookup
    exact absurd rfl (bne_iff_ne.1 (hlookup _ (mem_substitutions.2 ⟨_, _, hmem⟩)))
  | some other =>
    obtain ⟨front, behind, hsplit, -⟩ := List.lookup_eq_some_iff.1 hlookup
    have hother : (entry, other) ∈ substitutions outcomes := by
      rw [hsplit]
      exact List.mem_append_right _ List.mem_cons_self
    obtain ⟨registered', methods', hmem'⟩ := mem_substitutions.1 hother
    rw [hsame other registered' methods' hmem']

/-- What stands outside the directory of copies is no copy. -/
theorem destination_copy_ne {fs : FileSystem} {work output className : String} (hname : IsProperName className)
    (houtput : ¬ fs.destination (Path.join work "classes") <+: fs.destination output) :
    fs.destination (scratchPath work (classEntryName className)) ≠ fs.destination output := by
  rw [FileSystem.destination, Path.destination_scratchPath _ _ hname.isPlain]
  intro heq
  exact houtput (heq ▸ List.prefix_append _ _)

theorem isUnchanged_iff {outcomes : List InjectionOutcome} {entry : String} :
    IsUnchanged outcomes entry ↔ entry ∉ (substitutions outcomes).map (·.1) := by
  rw [List.mem_map]
  constructor
  · rintro h ⟨⟨_, path⟩, hmem, rfl⟩
    obtain ⟨registered, methods, hmem⟩ := mem_substitutions.1 hmem
    exact h path registered methods hmem
  · intro h path registered methods hmem
    exact h ⟨_, mem_substitutions.2 ⟨registered, methods, hmem⟩, rfl⟩

/-! ## The roots meanwhile -/

section

variable {during : Surroundings} {archive : Archive} {written : List String → Prop} {fs fs' : FileSystem}
variable {place : List String} {root : Root} {now : Nat} {own : List Item}

/-- A root that held a file lists it when an archive is assembled. If something on the way to it could not be listed, the
root would have no items. -/
theorem Root.lists_of_held (haround : during.Around fs' place) (hown : root.Items during archive now own) {entry : String}
    (hentry : Path.IsDirect entry) (hfile : ¬ Archive.NamesDirectory entry)
    (hpath : ∀ path, root = .directory path → path ≠ "") (hholds : root.holds fs entry = true)
    (hgrows : Grows written fs fs') (hclear : ∀ path, root = .archive path → ¬ written (fs.destination path)) :
    root.Lists fs' entry := by
  cases root with
  | directory path =>
    obtain ⟨names, -, hunblocked, -⟩ := hown
    have hthere : fs'.isFile (Path.join path entry) = true := hgrows.isFile hholds
    rcases FileSystem.lists_or_blocked haround.sound (hpath path rfl) hentry hthere with
      hlists | ⟨base, front, name, hbase, -, hblocked⟩
    · exact hlists
    · exact absurd hblocked ((haround.unblocked_iff _ _).1 hunblocked _ _ hbase front)
  | archive path => exact (Root.lists_archive_of_holds hfile hholds).mono hgrows hclear

/-- Each root has items. -/
theorem Collects.exists_items {before items : List Item} {roots : List Root}
    (h : Collects during archive before roots items) (hroot : root ∈ roots) :
    ∃ now own, root.Items during archive now own ∧ own ⊆ items := by
  induction h with
  | nil => cases hroot
  | @cons before own others _ _ hown _ ih =>
    rcases List.mem_cons.1 hroot with rfl | hroot
    · exact ⟨_, own, hown, List.subset_append_left _ _⟩
    · obtain ⟨now, own', hown', hsubset⟩ := ih hroot
      exact ⟨now, own', hown', List.Subset.trans hsubset (List.subset_append_right _ _)⟩

/-- The files of a root are listed. -/
theorem Root.lists_of_item (haround : during.Around fs' place) (hown : root.Items during archive now own) {item : Item}
    (hitem : item ∈ own) (hclear : ∀ path, root = .archive path → fs'.destination path ≠ place) :
    root.Lists fs' item.name := by
  cases root with
  | directory path =>
    obtain ⟨names, hlisting, -, rfl⟩ := hown
    obtain ⟨name, hname, rfl⟩ := List.mem_map.1 hitem
    exact (((haround.listing_iff _ _).1 hlisting).mem_iff name).1 hname
  | archive path =>
    obtain ⟨stored, hstores, rfl⟩ := hown
    obtain ⟨x, hx, rfl⟩ := List.mem_map.1 hitem
    obtain ⟨hindexed, hfile⟩ := List.mem_filter.1 hx
    have hmem := List.mem_of_getElem? (List.mem_zipIdx_iff_getElem?.1 hindexed)
    exact ⟨stored, (haround.stores_iff _ _ (hclear path rfl)).1 hstores, List.mem_map.2 ⟨_, hmem, rfl⟩,
      of_decide_eq_true hfile⟩

/-- What a root lists later and had before it listed before. -/
theorem Root.Lists.before {entry : String} {data : List UInt8} (h : root.Lists fs' entry) (hgrows : Grows written fs fs')
    (hsound : fs.root.Sound) (hhas : root.HasEntry fs entry data) : root.Lists fs entry := by
  cases root with
  | directory path =>
    obtain ⟨place', access, content, hfind, -⟩ := hhas
    have hlists : fs'.Lists path entry := h
    have hpath : path ≠ "" := by
      rintro rfl
      obtain ⟨_, _, _, hfound, -⟩ := hlists
      cases hfound
    have hentry := hlists.isDirect (hgrows.sound hsound)
    obtain ⟨base, hbase, -⟩ := FileSystem.exists_find_of_find_join hpath hentry hfind
    exact hgrows.lists_before hsound hlists hbase (FileSystem.find_destination hfind).2
  | archive path =>
    obtain ⟨_, _, _, hfile⟩ := h
    obtain ⟨stored, e, hstores, hfind, -⟩ := hhas
    have hname : e.name = entry := by simpa using List.find?_some hfind
    exact ⟨stored, hstores, List.mem_map.2 ⟨e, List.mem_of_find?_eq_some hfind, hname⟩, hfile⟩

end

section

variable {during : Surroundings} {archive : Archive} {written : List String → Prop} {fs fs₁ fs' : FileSystem}
variable {place : List String} {inputs : Inputs} {items : List Item} {className name : String}

/-- An archive among the roots stays as it is, and is not the one that is assembled. -/
theorem archive_clear (hgrows : Grows written fs fs') (hplace : written place)
    (harchives : ∀ path, .archive path ∈ inputs.roots → ¬ written (fs.destination path)) {root : Root}
    (hroot : root ∈ inputs.roots) (path : String) (hpath : root = .archive path) : fs'.destination path ≠ place := by
  rw [hgrows.destination_eq]
  rintro rfl
  exact harchives path (hpath ▸ hroot) hplace

/-- A class that a root held at some time has an entry. -/
theorem mem_names_of_held (haround : during.Around fs' place) (hgrows : Grows written fs₁ fs') (hplace : written place)
    (hitems : Collects during archive [] inputs.roots items) (hproper : IsProperName className)
    (hdirectories : ∀ path, .directory path ∈ inputs.roots → path ≠ "")
    (harchives : ∀ path, .archive path ∈ inputs.roots → ¬ written (fs₁.destination path))
    (hheld : Held inputs written fs₁ (classEntryName className)) : classEntryName className ∈ items.map (·.name) := by
  obtain ⟨root, hroot, fs₀, hholds, hbefore⟩ := hheld
  obtain ⟨now, own, hown, hsubset⟩ := hitems.exists_items hroot
  have hlists : root.Lists fs' (classEntryName className) :=
    Root.lists_of_held haround hown hproper.isDirect (not_namesDirectory_of_isClass (suffix_classEntryName _))
      (fun path hpath => hdirectories path (hpath ▸ hroot)) hholds (hbefore.trans hgrows) fun path hpath => by
        rw [← hbefore.destination_eq]
        exact harchives path (hpath ▸ hroot)
  obtain ⟨item, hitem, hname⟩ := Root.exists_item haround (archive_clear hgrows hplace harchives hroot) hlists hown
  exact List.mem_map.2 ⟨item, hsubset hitem, beq_iff_eq.1 hname⟩

/-- What is read of the first file with a name was there before, in the first root that listed it. -/
theorem exists_reached (haround : during.Around fs' place) (hgrows : Grows written fs fs') (hplace : written place)
    (hitems : Collects during archive [] inputs.roots items) (hsound : fs.root.Sound)
    (harchives : ∀ path, .archive path ∈ inputs.roots → ¬ written (fs.destination path))
    (hthere : ∀ root ∈ inputs.roots, fs'.exists? root.path = true → fs.exists? root.path = true ∨ Path.IsPlain root.path)
    (hclear : ∀ path, inputs.Reaches fs name (.directory path) → ¬ written (fs.destination (Path.join path name)))
    {item : Item} (hfirst : items.find? (·.name == name) = some item) {now : Nat} {data : List UInt8}
    (hreads : item.source.Reads during archive now data) :
    ∃ root, inputs.Reaches fs name root ∧ root.Lists fs name ∧ root.HasEntry fs name data := by
  have hname := Item.name_of_find? hfirst
  obtain ⟨front, root, behind, before, own, hroots, hfront, hown, hfind⟩ := hitems.exists_split_of_find? hfirst
  have hroot : root ∈ inputs.roots := by simp [hroots]
  have hreaches : inputs.Reaches fs name root := by
    refine ⟨front, behind, hroots, fun r hr hlists => ?_⟩
    have hmem : r ∈ inputs.roots := by simp [hroots, hr]
    obtain ⟨now', own', hown', hnone⟩ := hfront r hr
    have hlater := hlists.mono hgrows fun path hpath => harchives path (hpath ▸ hmem)
    obtain ⟨item', hitem', hname'⟩ :=
      Root.exists_item haround (archive_clear hgrows hplace harchives hmem) hlater hown'
    exact List.find?_eq_none.1 hnone item' hitem' hname'
  have hplain : ¬ written (fs.destination (root.pathOf name)) := by
    cases root with
    | directory path => exact hclear path hreaches
    | archive path => exact harchives path hroot
  have hitem := List.mem_of_find?_eq_some hfind
  have hhas' : root.HasEntry fs' name data := Root.hasEntry_of_find? haround (by
    rw [hgrows.destination_eq]
    rintro rfl
    exact hplain hplace) hown hfind hreads
  have hlists : root.Lists fs' name :=
    hname ▸ Root.lists_of_item haround hown hitem (archive_clear hgrows hplace harchives hroot)
  have hhas : root.HasEntry fs name data := hhas'.before hgrows (fun path hpath => by
    subst hpath
    exact FileSystem.Lists.isDirect haround.sound hlists)
    (hthere root hroot (Root.exists_of_items haround hown hitem)) hplain
  exact ⟨root, hreaches, hlists.before hgrows hsound hhas, hhas⟩

end

/-- **Changed classes reach the archive.** Let an archive be assembled after classes were changed, by any schedule, let it
stand outside the directory of copies, and let no archive among the inputs stand where a file is written meanwhile. A
class into which calls were put has just one entry, which holds what its copy held. Every other entry holds what the
first root that listed it had before, unless the roots up to this one have a directory in which the file with its name is
written: a copy, or the archive itself. Roots that came into being since must not go up. -/
theorem carries_to_archive {schedule : List Nat} {unfinished : Unfinished} {inputs : Inputs} {rules : List Rule}
    {matched : List NameSet} {work output : String} {fs fs₁ fs₂ : FileSystem} {outcomes : List InjectionOutcome}
    {report : AssemblyReport} (hrules : ∀ r ∈ rules, ∃ c, Rule.ofConfig c = .ok r) (hsound : fs.root.Sound)
    (hdirectories : ∀ path ∈ inputs.directories, path ≠ "")
    (houtput : ¬ fs.destination (Path.join work "classes") <+: fs.destination output)
    (harchives : ∀ path ∈ inputs.archives, ¬ RunWrites rules work output fs (fs.destination path))
    (hinject : injectUnder schedule inputs rules matched work fs = (outcomes, fs₁))
    (hassemble : assemble unfinished inputs (substitutions outcomes) output fs₁ = .ok report fs₂) :
    ∃ archive place access, fs₂.find output = .ok (place, .file access (.ofArchive archive)) ∧
      CarriesCopies rules outcomes fs₁ archive report ∧
      ((∀ root ∈ inputs.roots, fs₂.exists? root.path = true → fs.exists? root.path = true ∨ Path.IsPlain root.path) →
        ∀ e ∈ archive, IsUnchanged outcomes e.name →
        (∀ path, inputs.Reaches fs e.name (.directory path) →
          ¬ RunWrites rules work output fs (fs.destination (Path.join path e.name))) →
        ∃ root data, inputs.Reaches fs e.name root ∧ root.Lists fs e.name ∧ root.HasEntry fs e.name data ∧
          e.content = .bytes data) := by
  obtain ⟨hgrows, hdelivers⟩ := delivers_of_injectUnder hinject
  obtain ⟨fs', items, s, hbegin, hitems, hmerged, rfl, hwrite⟩ := merged_of_assemble (hgrows.sound hsound) hassemble
  have hbegun := FileSystem.grows_beginArchive hbegin
  have haround := around_during (hgrows.sound hsound) hbegin unfinished
  rw [hbegun.destination_eq, hgrows.destination_eq] at haround
  rw [hgrows.destination_eq] at hbegun
  have hmerges := hmerged.merges output
  have hinjected : Grows (RunWrites rules work output fs) fs fs₁ := hgrows.mono fun _ => .inl
  have hlast : Grows (RunWrites rules work output fs) fs₁ fs' := hbegun.mono fun _ => .inr
  have hkept : ∀ path, .archive path ∈ inputs.roots → ¬ RunWrites rules work output fs (fs.destination path) :=
    fun path hpath => harchives path (by simpa [Inputs.roots] using hpath)
  obtain ⟨access, hfile⟩ := FileSystem.find_of_write hwrite
  refine ⟨s.archive, _, access, hfile, ?_, ?_⟩
  · intro i r entry path registered methods hr houtcome hparts
    obtain ⟨r', hr', rfl, hpath, hheld, hcopy⟩ := hdelivers i entry path registered methods houtcome
    obtain rfl := Option.some.inj (hr.symm.trans hr')
    obtain ⟨c, hc⟩ := hrules r (List.mem_of_getElem? hr)
    have hproper := isProperName_of_ofConfig hc hparts
    refine ⟨rfl, ?_⟩
    have hnamed : classEntryName r.targetClass ∈ items.map (·.name) := by
      obtain ⟨root, hroot, fs₀, hholds, hbefore⟩ := hheld
      refine mem_names_of_held haround hlast (.inr rfl) hitems hproper
        (fun path hpath => hdirectories path (by simpa [Inputs.roots] using hpath)) (fun path hpath => ?_)
        ⟨root, hroot, fs₀, hholds, hbefore.mono fun _ => .inl⟩
      rw [hgrows.destination_eq]
      exact hkept path hpath
    obtain ⟨k, data, -, hentry, hbelongs⟩ := hmerges.exists_entry hnamed
    have hlookup : (substitutions outcomes).lookup (classEntryName r.targetClass) = some path := by
      refine lookup_substitutions (List.mem_of_getElem? houtcome) fun other registered' methods' hmem => ?_
      obtain ⟨j, hj⟩ := List.mem_iff_getElem?.1 hmem
      obtain ⟨-, -, -, hother, -⟩ := hdelivers j _ _ _ _ hj
      rw [hother, hpath]
    unfold Belongs at hbelongs
    rw [hlookup] at hbelongs
    -- the copy has not changed since: the archive is not in its place
    have hclear : fs₁.destination path ≠ fs.destination output := by
      rw [hgrows.destination_eq, hpath]
      exact destination_copy_ne hproper houtput
    have hyields : fs'.Yields path data := (haround.yields_iff _ _ (by rwa [hbegun.destination_eq])).1 hbelongs
    have hread := hbegun.yields_before hyields (.inl (FileSystem.exists_of_isFile hcopy)) hclear
    refine ⟨data, FileSystem.readFile_eq_ok_iff.2 hread, hentry, ?_⟩
    rw [hmerges.substituted]
    refine List.count_eq_one_of_mem ((nodup_eraseDups _).filter _) (List.mem_filter.2 ⟨?_, by rw [hlookup]; rfl⟩)
    rwa [List.mem_eraseDups]
  · intro hthere e he hunchanged hclear
    obtain ⟨k, hk⟩ := List.mem_iff_getElem?.1 he
    obtain ⟨data, hdata, hbelongs⟩ := hmerges.content k e hk
    unfold Belongs at hbelongs
    rw [lookup_eq_none (isUnchanged_iff.1 hunchanged)] at hbelongs
    obtain ⟨item, hfirst, hreads⟩ := hbelongs
    -- a root that is there when the archive is begun is there at the end
    have hthere' : ∀ root ∈ inputs.roots, fs'.exists? root.path = true →
        fs.exists? root.path = true ∨ Path.IsPlain root.path := by
      intro root hroot hexists
      obtain ⟨found, hfound⟩ := FileSystem.exists?_eq_true_iff.1 hexists
      exact hthere root hroot (FileSystem.exists?_eq_true_iff.2 (FileSystem.exists_find_of_write hwrite hfound))
    obtain ⟨root, hreaches, hlists, hhas⟩ := exists_reached haround (hinjected.trans hlast) (.inr rfl) hitems hsound hkept
      hthere' hclear hfirst hreads
    exact ⟨root, data, hreaches, hlists, hhas, hdata⟩

theorem exists_config_of_mem_rulesFor {targets : List String} {r : Rule} (h : r ∈ rulesFor targets) :
    ∃ c, Rule.ofConfig c = .ok r := by
  obtain ⟨target, -, hr⟩ := List.mem_filterMap.1 h
  exact ⟨_, Except.toOption_eq_some_iff.1 hr⟩

/-- Where the first root lists a file, no other one is reached. -/
theorem Inputs.Reaches.eq_of_lists {inputs : Inputs} {fs : FileSystem} {name : String} {root first : Root}
    {others : List Root} (h : inputs.Reaches fs name root) (hroots : inputs.roots = first :: others)
    (hlists : first.Lists fs name) : root = first := by
  obtain ⟨front, behind, hsplit, hnone⟩ := h
  cases front with
  | nil => exact (List.cons.inj (hsplit.symm.trans hroots)).1
  | cons r front =>
    obtain ⟨rfl, -⟩ := List.cons.inj (hsplit.symm.trans hroots)
    exact absurd hlists (hnone r List.mem_cons_self)

/-- Inputs and rules, and the path of the archive that is assembled of them. -/
structure Workload where
  inputs : Inputs
  rules : List Rule
  output : String
  fs : FileSystem

namespace Workload

/-- The class `B` for each rule. -/
def matched (w : Workload) : List NameSet := w.rules.map fun _ => .ofList ["B"]

/-- The outcomes of the rules by a schedule, and the file system with the copies. -/
def injected (w : Workload) (schedule : List Nat) : List InjectionOutcome × FileSystem :=
  injectUnder schedule w.inputs w.rules w.matched "work" w.fs

/-- The file system when the archive was begun, after classes were changed. -/
def begun (w : Workload) (schedule : List Nat) : FileSystem :=
  FileSystem.after (beginArchive w.output (w.injected schedule).2)

/-- Whether an archive can be assembled after classes were changed. -/
def isReady (w : Workload) (schedule : List Nat) : Bool :=
  FileSystem.succeeds (beginArchive w.output (w.injected schedule).2) && w.inputs.roots.all fun root =>
    root.isReady (w.begun schedule) ((w.begun schedule).destination w.output) (substitutions (w.injected schedule).1)

theorem sound_injected {w : Workload} (hsound : w.fs.root.Sound) (schedule : List Nat) :
    (w.injected schedule).2.root.Sound := by
  obtain ⟨hgrows, -⟩ :=
    delivers_of_injectUnder (Prod.mk.eta : ((w.injected schedule).1, (w.injected schedule).2) = _).symm
  exact hgrows.sound hsound

theorem around_begun {w : Workload} {schedule : List Nat} (hsound : w.fs.root.Sound) (hready : w.isReady schedule = true) :
    ((w.begun schedule).during w.output .stored).Around (w.begun schedule) ((w.begun schedule).destination w.output) :=
  around_during (sound_injected hsound schedule) (FileSystem.eq_ok_of_succeeds (Bool.and_eq_true_iff.1 hready).1) .stored

/-- What is assembled after classes were changed. -/
theorem exists_merges {w : Workload} {schedule : List Nat} (hsound : w.fs.root.Sound) (hready : w.isReady schedule = true)
    {items : List Item} (hcollect : collectAll (w.begun schedule) [] w.inputs.roots = .ok items) :
    ∃ report fs' archive place access, assemble .stored w.inputs (substitutions (w.injected schedule).1) w.output
        (w.injected schedule).2 = .ok report fs' ∧ fs'.find w.output = .ok (place, .file access (.ofArchive archive)) ∧
      Merges ((w.begun schedule).during w.output .stored) (substitutions (w.injected schedule).1) items archive report := by
  obtain ⟨hbegin, hroots⟩ := Bool.and_eq_true_iff.1 hready
  exact Registrar.exists_merges .stored (sound_injected hsound schedule) (FileSystem.eq_ok_of_succeeds hbegin)
    (List.all_eq_true.1 hroots) hcollect

/-- The class `a` is changed, the class `b` cannot be read. -/
def apart : Workload where
  inputs := ⟨["in"], ["in.jar"]⟩
  rules := rulesFor ["a", "b"]
  output := "out.jar"
  fs := ⟨.directory .full [("in", .directory .full [("b.class", .file .full (.ofBytes [7]))]),
    ("in.jar", .file .full (.ofArchive [⟨"a.class", .bytes (registrarBytes "a")⟩, ⟨"b.class", .bytes [8]⟩,
      ⟨"B.class", .bytes registrantBytes⟩]))], []⟩

theorem sound_apart : apart.fs.root.Sound := by
  simp only [apart, FileTree.sound_directory_iff, FileTree.sound_file, List.forall_mem_cons]
  simp
  decide

end Workload

/-- A schedule by which two groups take turns. -/
def inTurns : List Nat := [0, 1, 0, 1, 1, 0, 0, 1, 1, 0]

theorem carries_to_archive_apart :
    ∃ outcomes fs₁ report fs₂ archive place access, Workload.apart.injected inTurns = (outcomes, fs₁) ∧
      assemble .stored Workload.apart.inputs (substitutions outcomes) "out.jar" fs₁ = .ok report fs₂ ∧
      fs₂.find "out.jar" = .ok (place, .file access (.ofArchive archive)) ∧
      (∃ data, fs₁.readFile "work/classes/a.class" = .ok data ∧
        archive.filter (·.name == "a.class") = [⟨"a.class", .bytes data⟩] ∧ report.substituted.count "a.class" = 1) ∧
      ⟨"b.class", .bytes [7]⟩ ∈ archive := by
  let items : List Item := [⟨"b.class", .file "in/b.class"⟩, ⟨"a.class", .entry "in.jar" 0 1⟩,
    ⟨"b.class", .entry "in.jar" 1 1⟩, ⟨"B.class", .entry "in.jar" 2 1⟩]
  have hall : (Workload.apart.injected inTurns).1[0]? = some (.injected "a.class" "work/classes/a.class" 1 1) ∧
      substitutions (Workload.apart.injected inTurns).1 = [("a.class", "work/classes/a.class")] ∧
      Workload.apart.isReady inTurns = true ∧
      collectAll (Workload.apart.begun inTurns) [] Workload.apart.inputs.roots = .ok items := by
    decide +kernel
  obtain ⟨hinjected, hsubstitutions, hready, hcollect⟩ := hall
  obtain ⟨report, fs₂, archive, place, access, hassemble, hfile, hmerges⟩ :=
    Workload.exists_merges Workload.sound_apart hready hcollect
  have hconfigs : ∀ r ∈ Workload.apart.rules, ∃ c, Rule.ofConfig c = .ok r := fun r => exists_config_of_mem_rulesFor
  have hclear : ∀ path ∈ Workload.apart.inputs.archives,
      ¬ RunWrites Workload.apart.rules "work" "out.jar" Workload.apart.fs (Workload.apart.fs.destination path) := by
    unfold RunWrites RuleCopies
    decide +kernel
  have hrun : Workload.apart.injected inTurns =
      ((Workload.apart.injected inTurns).1, (Workload.apart.injected inTurns).2) := Prod.mk.eta.symm
  obtain ⟨archive', place', access', hfile', hcopies, hothers⟩ := carries_to_archive hconfigs Workload.sound_apart
    (by decide) (by decide +kernel) hclear hrun hassemble
  obtain rfl := eq_of_find_ofArchive hfile hfile'
  refine ⟨_, _, report, fs₂, archive, place, access, hrun, hassemble, hfile, ?_, ?_⟩
  · have hrules : Workload.apart.rules.map (·.targetClass) = ["a", "b"] := by decide +kernel
    obtain ⟨r, hrule, htarget⟩ := exists_first_rule hrules
    have hproper : ∀ part ∈ Path.pieces r.targetClass, part ≠ "" := by
      rw [htarget]
      decide
    exact (hcopies 0 r _ _ _ _ hrule hinjected hproper).2
  · obtain ⟨k, stored, hk, -⟩ := hmerges.exists_entry (List.mem_map.2 ⟨_, List.mem_cons_self, rfl⟩)
    have he := List.mem_of_getElem? hk
    have hthere : ∀ root ∈ Workload.apart.inputs.roots, Workload.apart.fs.exists? root.path = true := by decide +kernel
    have hunchanged : IsUnchanged (Workload.apart.injected inTurns).1 "b.class" := by
      rw [isUnchanged_iff, hsubstitutions]
      decide
    have hlists : (Root.directory "in").Lists Workload.apart.fs "b.class" :=
      (FileSystem.lists_iff_mem_filesBelow Workload.sound_apart).2 (by decide +kernel)
    have hwritten : ∀ path, Workload.apart.inputs.Reaches Workload.apart.fs "b.class" (.directory path) →
        ¬ RunWrites Workload.apart.rules "work" "out.jar" Workload.apart.fs
          (Workload.apart.fs.destination (Path.join path "b.class")) := by
      intro path hreaches
      obtain rfl := Root.directory.inj (hreaches.eq_of_lists rfl hlists)
      unfold RunWrites RuleCopies
      decide +kernel
    obtain ⟨root, data, hreaches, -, hhas, hcontent⟩ :=
      hothers (fun root hroot _ => .inl (hthere root hroot)) _ he hunchanged hwritten
    obtain rfl := hreaches.eq_of_lists rfl hlists
    have hseven : (Root.directory "in").HasEntry Workload.apart.fs "b.class" [7] :=
      Root.readEntry_eq_ok_iff.1 (by decide +kernel)
    rw [hhas.unique hseven] at hcontent
    exact hcontent ▸ he

/-! ## Where it does not hold -/

namespace Workload

/-- The groups one after the other. -/
def inOrder (w : Workload) : List Nat := Pool.sequential 0 (TargetGroup.all w.rules w.matched).length

/-- Whether the rules are rules that can be written, and the archive stands outside the directory of work. -/
structure Allowed (w : Workload) : Prop where
  rules : ∀ r ∈ w.rules, ∃ c, Rule.ofConfig c = .ok r
  sound : w.fs.root.Sound
  outside : ¬ w.fs.destination "work" <+: w.fs.destination w.output

/-- Let classes be changed after a scan, and then an archive be assembled. Each class into which calls were put has an
entry with what its copy holds, and every other entry holds what the first root that listed it had before. -/
def Carries (w : Workload) : Prop :=
  ∀ (unfinished : Unfinished) (outcomes : List InjectionOutcome) (fs₁ : FileSystem) (report : AssemblyReport)
    (fs₂ : FileSystem) (archive : Archive) (place : List String) (access : Access),
    injectAll w.inputs w.rules (Scan.of w.fs w.inputs w.rules).matched "work" w.fs = (outcomes, fs₁) →
    assemble unfinished w.inputs (substitutions outcomes) w.output fs₁ = .ok report fs₂ →
    fs₂.find w.output = .ok (place, .file access (.ofArchive archive)) →
    CarriesCopies w.rules outcomes fs₁ archive report ∧ ∀ e ∈ archive, IsUnchanged outcomes e.name →
      ∀ root data, w.inputs.Reaches w.fs e.name root → root.Lists w.fs e.name → root.HasEntry w.fs e.name data →
        e.content = .bytes data

/-- A file of one byte, which is no class. -/
def unreadable (byte : UInt8) : FileTree := .file .full (.ofBytes [byte])

/-- An archive with the class `B`. -/
def registrants : FileTree := .file .full (.ofArchive [⟨"B.class", .bytes registrantBytes⟩])

/-- The class `a` is found where the copy of the class `x/a` is put. -/
def copiedOver : Workload where
  inputs := ⟨["in", "work/classes/x"], ["in.jar"]⟩
  rules := rulesFor ["a", "x.a"]
  output := "out.jar"
  fs := ⟨.directory .full [("in", .directory .full [("x", .directory .full [("a.class", unreadable 0)])]),
    ("in.jar", registrants),
    ("work", .directory .full [("classes", .directory .full [("x", .directory .full [("a.class", unreadable 1)])])])], []⟩

/-- The class `a` is found where the archive is put. -/
def assembledOver : Workload where
  inputs := ⟨["in"], ["in.jar"]⟩
  rules := rulesFor ["a"]
  output := "in/a.class"
  fs := ⟨.directory .full [("in", .directory .full [("a.class", unreadable 1)]), ("in.jar", registrants)], []⟩

/-- A path leads through the directory of work, which is made only for the copies. -/
def reachedLater : Workload where
  inputs := ⟨["work/../in", "other"], ["in.jar"]⟩
  rules := rulesFor ["a"]
  output := "out.jar"
  fs := ⟨.directory .full [("in", .directory .full [("a.class", unreadable 0)]), ("in.jar", registrants),
    ("other", .directory .full [("a.class", unreadable 1)])], []⟩

theorem allowed_of_mem {w : Workload} (h : w ∈ [copiedOver, assembledOver, reachedLater]) : w.Allowed := by
  have houtside : ∀ w ∈ [copiedOver, assembledOver, reachedLater],
      ¬ w.fs.destination "work" <+: w.fs.destination w.output := by
    decide +kernel
  have houtside := houtside w h
  simp only [List.mem_cons, List.not_mem_nil, or_false] at h
  refine ⟨?_, ?_, houtside⟩
  · rcases h with rfl | rfl | rfl <;> exact fun r => exists_config_of_mem_rulesFor
  · rcases h with rfl | rfl | rfl <;>
      simp only [copiedOver, assembledOver, reachedLater, registrants, unreadable, FileTree.sound_directory_iff,
        FileTree.sound_file, List.forall_mem_cons] <;> simp <;> decide

theorem matched_of_scan {w : Workload} (h : w ∈ [copiedOver, assembledOver, reachedLater]) :
    (Scan.of w.fs w.inputs w.rules).matched = w.matched := by
  have hall : ∀ w ∈ [copiedOver, assembledOver, reachedLater],
      (Scan.ofVerdicts w.rules.length (shadowedEntries (w.inputs.entries w.fs)).length
        (Scan.verdicts w.fs w.rules (w.inputs.entries w.fs))).matched = w.matched := by
    decide +kernel
  rw [Scan.of_eq]
  exact hall w h

/-- Something else than what a root had at first is read for the class `a`. -/
theorem Carries.reads {w : Workload} (h : w.Carries) (hallowed : w.Allowed)
    (hmatched : (Scan.of w.fs w.inputs w.rules).matched = w.matched) (hready : w.isReady w.inOrder = true)
    (hnone : substitutions (w.injected w.inOrder).1 = []) {items : List Item}
    (hcollect : collectAll (w.begun w.inOrder) [] w.inputs.roots = .ok items) {item : Item}
    (hfirst : items.find? (·.name == "a.class") = some item) {root : Root} {data : List UInt8}
    (hreaches : w.inputs.Reaches w.fs "a.class" root) (hlists : root.Lists w.fs "a.class")
    (hhas : root.HasEntry w.fs "a.class" data) :
    ∃ archive k, archive.map (·.name) = (items.map (·.name)).eraseDups ∧
      (archive.map (·.name))[k]? = some "a.class" ∧
      item.source.Reads ((w.begun w.inOrder).during w.output .stored) archive k data := by
  obtain ⟨report, fs₂, archive, place, access, hassemble, hfile, hmerges⟩ := exists_merges hallowed.sound hready hcollect
  have hinject : injectAll w.inputs w.rules (Scan.of w.fs w.inputs w.rules).matched "work" w.fs =
      ((w.injected w.inOrder).1, (w.injected w.inOrder).2) := by
    rw [hmatched, ← injectUnder_sequential]
    exact Prod.mk.eta.symm
  obtain ⟨-, hothers⟩ := h .stored _ _ _ _ _ _ _ hinject hassemble hfile
  have hnamed : "a.class" ∈ items.map (·.name) :=
    List.mem_map.2 ⟨item, List.mem_of_find?_eq_some hfirst, Item.name_of_find? hfirst⟩
  obtain ⟨k, stored, hk, -, hbelongs⟩ := hmerges.exists_entry hnamed
  have hunchanged : IsUnchanged (w.injected w.inOrder).1 "a.class" := by
    rw [isUnchanged_iff, hnone]
    exact List.not_mem_nil
  have hsame := hothers _ (List.mem_of_getElem? hk) hunchanged root data hreaches hlists hhas
  obtain rfl := EntryContent.bytes.inj hsame
  refine ⟨archive, k, hmerges.names, by rw [List.getElem?_map, hk]; rfl, ?_⟩
  unfold Belongs at hbelongs
  rw [hnone] at hbelongs
  obtain ⟨item', hfirst', hreads⟩ := hbelongs
  obtain rfl := Option.some.inj (hfirst.symm.trans hfirst')
  exact hreads

/-- Only the second of two directories lists the class `a`, with one byte, and when the archive was begun, another byte is
read for it. -/
structure Misreads (w : Workload) (first second path : String) (items : List Item) : Prop where
  roots : w.inputs.roots = [.directory first, .directory second, .archive "in.jar"]
  unlisted : "a.class" ∉ (w.fs.filesBelow true first).toOption.getD []
  listed : "a.class" ∈ (w.fs.filesBelow true second).toOption.getD []
  before : (Root.directory second).readEntry w.fs "a.class" = .ok [1]
  ready : w.isReady w.inOrder = true
  unchanged : substitutions (w.injected w.inOrder).1 = []
  collect : collectAll (w.begun w.inOrder) [] w.inputs.roots = .ok items
  first : items.find? (·.name == "a.class") = some ⟨"a.class", .file path⟩
  clear : (w.begun w.inOrder).destination path ≠ (w.begun w.inOrder).destination w.output
  after : (w.begun w.inOrder).readFile path = .ok [0]

theorem not_carries_of_misreads {w : Workload} (hmem : w ∈ [copiedOver, assembledOver, reachedLater])
    {first second path : String} {items : List Item} (hw : w.Misreads first second path items) : ¬ w.Carries := by
  intro h
  have hallowed := allowed_of_mem hmem
  have hreaches : w.inputs.Reaches w.fs "a.class" (.directory second) := by
    refine ⟨[.directory first], [.archive "in.jar"], hw.roots, fun r hr => ?_⟩
    obtain rfl := List.mem_singleton.1 hr
    exact fun hlists => hw.unlisted ((FileSystem.lists_iff_mem_filesBelow hallowed.sound).1 hlists)
  obtain ⟨archive, k, -, -, hreads⟩ := h.reads hallowed (matched_of_scan hmem) hw.ready hw.unchanged hw.collect hw.first
    hreaches ((FileSystem.lists_iff_mem_filesBelow hallowed.sound).2 hw.listed) (Root.readEntry_eq_ok_iff.1 hw.before)
  have hyields := ((around_begun hallowed.sound hw.ready).yields_iff _ _ hw.clear).1 hreads
  cases hyields.unique (FileSystem.readFile_eq_ok_iff.1 hw.after)

theorem misreads_copiedOver : copiedOver.Misreads "in" "work/classes/x" "work/classes/x/a.class"
    [⟨"x/a.class", .file "in/x/a.class"⟩, ⟨"a.class", .file "work/classes/x/a.class"⟩,
      ⟨"B.class", .entry "in.jar" 0 2⟩] := by
  constructor <;> decide +kernel

theorem misreads_reachedLater : reachedLater.Misreads "work/../in" "other" "work/../in/a.class"
    [⟨"a.class", .file "work/../in/a.class"⟩, ⟨"a.class", .file "other/a.class"⟩,
      ⟨"B.class", .entry "in.jar" 0 1⟩] := by
  constructor <;> decide +kernel

/-- The file of the archive is empty when the class is read. -/
theorem not_carries_assembledOver : ¬ assembledOver.Carries := by
  intro h
  have hmem : assembledOver ∈ [copiedOver, assembledOver, reachedLater] := by simp
  have hsound := (allowed_of_mem hmem).sound
  let items : List Item := [⟨"a.class", .file "in/a.class"⟩, ⟨"B.class", .entry "in.jar" 0 1⟩]
  have hrun : assembledOver.isReady assembledOver.inOrder = true ∧
      substitutions (assembledOver.injected assembledOver.inOrder).1 = [] ∧
      collectAll (assembledOver.begun assembledOver.inOrder) [] assembledOver.inputs.roots = .ok items ∧
      ((assembledOver.begun assembledOver.inOrder).during "in/a.class" .stored [] []).readFile "in/a.class" = .ok [] := by
    decide +kernel
  obtain ⟨hready, hnone, hcollect, hempty⟩ := hrun
  have hlists : (Root.directory "in").Lists assembledOver.fs "a.class" :=
    (FileSystem.lists_iff_mem_filesBelow hsound).2 (by decide +kernel)
  have hhas : (Root.directory "in").HasEntry assembledOver.fs "a.class" [1] :=
    Root.readEntry_eq_ok_iff.1 (by decide +kernel)
  obtain ⟨archive, k, hnames, hk, hreads⟩ := h.reads (allowed_of_mem hmem) (matched_of_scan hmem) hready hnone hcollect
    (show items.find? _ = some ⟨"a.class", .file "in/a.class"⟩ from rfl) ⟨[], [.archive "in.jar"], rfl, by simp⟩ hlists
    hhas
  have hposition : ∀ k < 2, ["a.class", "B.class"][k]? = some "a.class" → k = 0 := by decide
  rw [hnames, show (items.map (·.name)).eraseDups = ["a.class", "B.class"] by decide] at hk
  obtain rfl := hposition k (List.getElem?_eq_some_iff.1 hk).1 hk
  cases (FileSystem.readFile_eq_ok_iff.1 hempty).unique hreads

/-- The archive may hold other classes than were there at first. -/
theorem not_carries : (copiedOver.Allowed ∧ ¬ copiedOver.Carries) ∧ (assembledOver.Allowed ∧ ¬ assembledOver.Carries) ∧
    (reachedLater.Allowed ∧ ¬ reachedLater.Carries) :=
  ⟨⟨allowed_of_mem (by simp), not_carries_of_misreads (by simp) misreads_copiedOver⟩,
    ⟨allowed_of_mem (by simp), not_carries_assembledOver⟩,
    allowed_of_mem (by simp), not_carries_of_misreads (by simp) misreads_reachedLater⟩

end Workload

end Registrar
