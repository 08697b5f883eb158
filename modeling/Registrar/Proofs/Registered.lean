import Registrar.Proofs.Locating

/-!
# Classes that are registered

A scan owns entries by their names, but it registers a class by the name that its bytes declare.

* `Rule.WantsFound` : the class that is found for a name declares the name, and a rule wants that class;
* `Inputs.DeclaresInPlace` : of all entries that a scan looks at, only that of the name declares it;
* `Scan.wantsFound_of_matched` : a class that is registered, and declared in its place, is the one that is found.
  `Scan.not_forall_wantsFound` : not so if another entry declares the name.
-/

namespace Registrar

/-- The class that is found for a name declares the name, and the rule wants it. -/
def Rule.WantsFound (r : Rule) (inputs : Inputs) (fs : FileSystem) (name : String) : Prop :=
  ∃ root bytes m, inputs.locate? fs name = some root ∧ root.readEntry fs (classEntryName name) = .ok bytes ∧
    Metadata.read bytes = .ok m ∧ m.name = name ∧ r.Wants m

/-- The entries that a scan looks at declare a name only in its place. -/
def Inputs.DeclaresInPlace (inputs : Inputs) (fs : FileSystem) (name : String) : Prop :=
  ∀ root entry bytes m, Scan.LooksAt fs inputs root entry bytes → Metadata.read bytes = .ok m → m.name = name →
    entry = classEntryName name

namespace Scan

variable {inputs : Inputs} {fs : FileSystem} {rules : List Rule} {i : Nat} {r : Rule} {names : NameSet} {name : String}

/-- A class is registered because of an entry that declares it. -/
theorem exists_looksAt_of_mem_matched (hsound : fs.root.Sound) (hr : rules[i]? = some r)
    (hnames : (Scan.of fs inputs rules).matched[i]? = some names) (hname : name ∈ names) :
    ∃ root entry bytes m, LooksAt fs inputs root entry bytes ∧ Metadata.read bytes = .ok m ∧ m.name = name ∧
      r.Wants m := by
  rw [of_eq] at hnames
  obtain ⟨⟨root, entry⟩, howned, m, hm, hwants, hdeclared⟩ :=
    ((tallies_ofVerdicts fs rules (inputs.entries fs) rfl).matched i r names hr hnames name).1 hname
  obtain ⟨bytes, hhas, hmetadata⟩ := metadataAt_eq_some_iff.1 hm
  exact ⟨root, entry, bytes, m, ⟨⟨_, listsAll_entries hsound inputs, howned⟩, hhas⟩, hmetadata, hdeclared, hwants⟩

/-- The bytes of the class `B`, if it is abstract. -/
def abstractBytes : List UInt8 :=
  match ClassFile.encode { registrant with access := ⟨0x421⟩ } with
  | .ok bytes => bytes
  | .error _ => []

/-- A directory with the class `B`, and an archive with another copy, which can be made without arguments. -/
def copiesOfB (first : List UInt8) (entry : String) : FileSystem where
  root := .directory .full [("in", .directory .full [("B.class", .file .full (.ofBytes first))]),
    ("in.jar", .file .full (.ofArchive [⟨entry, .bytes registrantBytes⟩]))]
  workingDirectory := []

/-- The class is registered, be it for the first copy or for the other one. -/
theorem matched_copiesOfB {first : List UInt8} {entry : String}
    (h : (first, entry) ∈ [(registrantBytes, "B.class"), (abstractBytes, "relocated/B.class")]) :
    (Scan.of (copiesOfB first entry) ⟨["in"], ["in.jar"]⟩ (rulesFor ["a"])).matched[0]? = some (.ofList ["B"]) := by
  have hall : ∀ c ∈ [(registrantBytes, "B.class"), (abstractBytes, "relocated/B.class")],
      (Scan.ofVerdicts (rulesFor ["a"]).length
        (shadowedEntries (Inputs.entries ⟨["in"], ["in.jar"]⟩ (copiesOfB c.1 c.2))).length
        (verdicts (copiesOfB c.1 c.2) (rulesFor ["a"])
          (Inputs.entries ⟨["in"], ["in.jar"]⟩ (copiesOfB c.1 c.2)))).matched = [.ofList ["B"]] := by
    decide +kernel
  rw [of_eq, hall _ h]
  rfl

/-- **A class that is registered is the class that is found**, if no other entry declares its name, and the root that is
found does not hold the entry of the class unseen: the first copy declares the name, and the rule wants it. -/
theorem wantsFound_of_matched (hsound : fs.root.Sound) (hr : rules[i]? = some r)
    (hnames : (Scan.of fs inputs rules).matched[i]? = some names) (hname : name ∈ names)
    (hplace : inputs.DeclaresInPlace fs name)
    (hshows : ∀ root, inputs.locate? fs name = some root → root.Shows fs (classEntryName name)) :
    r.WantsFound inputs fs name := by
  obtain ⟨root, entry, bytes, m, hlooks, hmetadata, hdeclared, hwants⟩ :=
    exists_looksAt_of_mem_matched hsound hr hnames hname
  obtain rfl := hplace root entry bytes m hlooks hmetadata hdeclared
  exact ⟨root, bytes, m, (Inputs.locate?_of_looksAt hsound hlooks hshows).1, Root.readEntry_eq_ok_iff.2 hlooks.read,
    hmetadata, hdeclared, hwants⟩

theorem sound_copiesOfB : (copiesOfB registrantBytes "B.class").root.Sound := by
  simp only [copiesOfB, FileTree.sound_directory_iff, FileTree.sound_file, List.forall_mem_cons]
  simp
  decide

theorem wantsFound_of_matched_copies : ∃ r names, (rulesFor ["a"])[0]? = some r ∧
    (Scan.of (copiesOfB registrantBytes "B.class") ⟨["in"], ["in.jar"]⟩ (rulesFor ["a"])).matched[0]? = some names ∧
    "B" ∈ names ∧ r.WantsFound ⟨["in"], ["in.jar"]⟩ (copiesOfB registrantBytes "B.class") "B" := by
  have hrules : (rulesFor ["a"]).map (·.targetClass) = ["a"] := by decide +kernel
  obtain ⟨r, hr, -⟩ := exists_first_rule hrules
  have hnames := matched_copiesOfB (show (registrantBytes, "B.class") ∈ _ from List.mem_cons_self)
  have hname : "B" ∈ NameSet.ofList ["B"] := List.mem_singleton_self _
  have hplace : Inputs.DeclaresInPlace ⟨["in"], ["in.jar"]⟩ (copiesOfB registrantBytes "B.class") "B" := by
    intro root entry bytes m hlooks _ _
    obtain ⟨es, hes, howned⟩ := hlooks.owned
    obtain rfl := hes.unique (listsAll_entries sound_copiesOfB ⟨["in"], ["in.jar"]⟩)
    have hentries : ∀ x ∈ ownedEntries (Inputs.entries ⟨["in"], ["in.jar"]⟩ (copiesOfB registrantBytes "B.class")),
        x.2 = "B.class" := by
      decide +kernel
    exact hentries _ howned
  have hshows : ∀ root, Inputs.locate? ⟨["in"], ["in.jar"]⟩ (copiesOfB registrantBytes "B.class") "B" = some root →
      root.Shows (copiesOfB registrantBytes "B.class") (classEntryName "B") := by
    intro root hroot
    have hfirst : Inputs.locate? ⟨["in"], ["in.jar"]⟩ (copiesOfB registrantBytes "B.class") "B" =
        some (.directory "in") := by
      decide +kernel
    obtain rfl := Option.some.inj (hfirst.symm.trans hroot)
    exact Root.shows_of_pieces_eq (by decide) (by decide)
      (show Path.pieces (classEntryName "B") = ["B.class"] by decide)
      (show (copiesOfB registrantBytes "B.class").root.nodeAt
        ((copiesOfB registrantBytes "B.class").destination "in") = some (.directory .full []) from rfl) rfl
  exact ⟨r, _, hr, hnames, hname, wantsFound_of_matched sound_copiesOfB hr hnames hname hplace hshows⟩

/-- A class may be registered for a copy under another name, though the one that is found is abstract. -/
theorem not_forall_wantsFound : ¬ ∀ (inputs : Inputs) (fs : FileSystem) (rules : List Rule) (i : Nat) (r : Rule)
    (names : NameSet) (name : String), rules[i]? = some r → (Scan.of fs inputs rules).matched[i]? = some names →
    name ∈ names → r.WantsFound inputs fs name := by
  intro h
  have hrules : (rulesFor ["a"]).map (·.targetClass) = ["a"] := by decide +kernel
  obtain ⟨r, hr, -⟩ := exists_first_rule hrules
  have hnames := matched_copiesOfB (List.mem_cons_of_mem (registrantBytes, "B.class") List.mem_cons_self)
  obtain ⟨root, bytes, m, hlocate, hbytes, hm, -, hwants⟩ := h _ _ _ 0 r _ "B" hr hnames (List.mem_singleton_self _)
  have hfound : Inputs.locate? ⟨["in"], ["in.jar"]⟩ (copiesOfB abstractBytes "relocated/B.class") "B" =
      some (.directory "in") := by decide +kernel
  have hread : Root.readEntry (copiesOfB abstractBytes "relocated/B.class") (classEntryName "B") (.directory "in") =
      .ok abstractBytes := by decide +kernel
  have habstract : (Metadata.read abstractBytes).toOption.map (·.isAbstract) = some true := by decide +kernel
  obtain rfl := Option.some.inj (hfound.symm.trans hlocate)
  obtain rfl := Except.ok.inj (hread.symm.trans hbytes)
  rw [hm] at habstract
  cases hwants.notAbstract.symm.trans (Option.some.inj habstract)

end Scan

end Registrar
