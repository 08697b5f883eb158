import Registrar.Metadata.HeaderWalk
import Registrar.Proofs.ClassFiles

/-!
# Walking over a class file

A walk resolves names while it reads, and passes over what it does not need. On bytes that are a class file it finds what
the class says, and stops in front of the attributes of the class.

* `Attribute.reads_skip`, `HeaderWalk.fields_eq_ok_iff` : what is passed over is what would be read;
* `ClassFile.metadata` : the facts that the class states, or why it states none;
* `HeaderWalk.walk_eq_of_decode` : a walk finds just those;
* `HeaderWalk.agrees_of_decode` : when there are any, and which.
-/

namespace Registrar

/-! ## Passing over bytes -/

theorem Decoder.reads_skip (n : Nat) : (Decoder.skip n).Reads fun _ raw => raw.length = n := by
  refine ((Decoder.reads_take n).bind fun _ => Decoder.reads_pure ()).congr fun _ raw => ?_
  constructor
  · rintro ⟨front, _, _, ⟨hfront, rfl⟩, ⟨-, rfl⟩, rfl⟩
    simpa using hfront
  · intro hraw
    exact ⟨raw, raw, [], ⟨hraw, rfl⟩, ⟨rfl, rfl⟩, (List.append_nil raw).symm⟩

namespace Attribute

theorem exists_bytes16 {raw : List UInt8} (h : raw.length = 2) : ∃ value, raw = bytes16 value := by
  match raw, h with
  | [a, b], _ => exact ⟨_, (Decoder.bytes16_of_u16 a b).symm⟩

/-- What is passed over is an attribute that could be read. -/
theorem reads_skip : skip.Reads fun _ raw => ∃ a : Attribute, a.Storable ∧ raw = a.spell := by
  refine ((Decoder.reads_skip 2).bind fun _ => Decoder.reads_u32.bind fun length =>
    Decoder.reads_skip length.toNat).congr fun _ raw => ?_
  constructor
  · rintro ⟨_, front, _, hfront, ⟨length, _, content, ⟨-, rfl⟩, hcontent, rfl⟩, rfl⟩
    obtain ⟨name, rfl⟩ := exists_bytes16 hfront
    refine ⟨⟨name, content⟩, Nat.lt_of_le_of_lt (Nat.le_of_eq hcontent) length.toNat_lt, ?_⟩
    rw [spell, length_field hcontent]
  · rintro ⟨a, ha, rfl⟩
    exact ⟨(), bytes16 a.name, _, rfl, ⟨_, _, _, ⟨trivial, rfl⟩, toNat_length_field.2 ha, rfl⟩, rfl⟩

/-- What is passed over is a list of attributes that could be read. -/
theorem reads_skipAll :
    skipAll.Reads fun _ raw => ∃ as, Decoder.Spelled
      (fun as : List Attribute => as.length < 0x10000 ∧ ∀ a ∈ as, a.Storable)
      (fun as => count16 as.length ++ as.flatMap spell) as raw := by
  refine (reads_skip.counted.bind fun _ => Decoder.reads_pure ()).congr fun _ raw => ?_
  constructor
  · rintro ⟨units, _, _, ⟨hlength, raws, hraws, rfl⟩, ⟨-, rfl⟩, rfl⟩
    obtain ⟨as, has⟩ := List.exists_forall₂ (R := fun raw (a : Attribute) => a.Storable ∧ raw = a.spell) (l := raws)
      fun raw hraw => by
        obtain ⟨_, -, a, ha⟩ := hraws.flip.exists_of_mem hraw
        exact ⟨a, ha⟩
    obtain ⟨hstorable, rfl⟩ := Decoder.forall₂_spelled.1 has.flip
    have hunits : units.length = as.length := by simpa using hraws.length_eq
    refine ⟨as, ⟨hunits ▸ hlength, hstorable⟩, ?_⟩
    simp only [List.append_nil, hunits, List.flatMap_def]
  · rintro ⟨as, ⟨hlength, hstorable⟩, rfl⟩
    refine ⟨as.map fun _ => (), _, [], ⟨by simpa using hlength, as.map spell, ?_, ?_⟩, ⟨rfl, rfl⟩,
      (List.append_nil _).symm⟩
    · rw [List.forall₂_map_left_iff, List.forall₂_map_right_iff, List.forall₂_same]
      exact fun a ha => ⟨a, hstorable a ha, rfl⟩
    · simp only [List.length_map, List.flatMap_def]

theorem skipAll_eq_ok_iff {input rest : List UInt8} :
    skipAll input = .ok ((), rest) ↔ ∃ as, decodeAll input = .ok (as, rest) := by
  rw [reads_skipAll input () rest]
  simp only [decodeAll, reads_decode.counted_spelled input _ rest]
  constructor
  · rintro ⟨raw, ⟨as, has⟩, hinput⟩
    exact ⟨as, raw, has, hinput⟩
  · rintro ⟨as, raw, has, hinput⟩
    exact ⟨raw, ⟨as, has⟩, hinput⟩

end Attribute

/-! ## Steps of a walk -/

namespace HeaderWalk

variable {α β : Type}

theorem bind_eq (x : Walk α) (f : α → Walk β) (input : List UInt8) :
    (x >>= f) input = match x input with
      | .ok (value, rest) => f value rest
      | .error error => .error error := by
  simp only [bind, StateT.bind, Except.bind]
  cases x input <;> rfl

/-- A step that succeeds. -/
theorem bind_of_eq_ok {x : Walk α} {f : α → Walk β} {input rest : List UInt8} {value : α}
    (h : x input = .ok (value, rest)) : (x >>= f) input = f value rest := by
  rw [bind_eq, h]

theorem bind_eq_ok_iff {x : Walk α} {f : α → Walk β} {input rest : List UInt8} {value : β} :
    (x >>= f) input = .ok (value, rest) ↔ ∃ a mid, x input = .ok (a, mid) ∧ f a mid = .ok (value, rest) := by
  rw [bind_eq]
  cases h : x input with
  | error e => simp
  | ok r =>
    constructor
    · intro hf
      exact ⟨r.1, r.2, rfl, hf⟩
    · rintro ⟨a, mid, hr, hf⟩
      cases hr
      exact hf

theorem take_eq_ok_iff {decode : Decoder α} {input rest : List UInt8} {value : α} :
    take decode input = .ok (value, rest) ↔ decode input = .ok (value, rest) := by
  rw [take]
  cases decode input <;> simp

theorem take_of_reads {decode : Decoder α} {G : Decoder.Grammar α} (h : decode.Reads G) {value : α} {raw : List UInt8}
    (hraw : G value raw) (rest : List UInt8) : take decode (raw ++ rest) = .ok (value, rest) :=
  take_eq_ok_iff.2 (h.complete hraw rest)

theorem take_u16 (value : UInt16) (rest : List UInt8) : take Decoder.u16 (bytes16 value ++ rest) = .ok (value, rest) :=
  take_of_reads Decoder.reads_u16 ⟨trivial, rfl⟩ rest

/-- A result without a place, at a place. -/
def at? (result : Except MetadataError α) (input : List UInt8) : Except MetadataError (α × List UInt8) :=
  result.map (·, input)

/-- A look-up reads nothing. -/
theorem look_eq (found : Except PoolError α) (input : List UInt8) :
    look found input = at? (found.mapError .pool) input := by
  cases found <;> rfl

theorem lookName_eq (which : HeaderName) (found : Except PoolError String) (input : List UInt8) :
    lookName which found input = at? (found.mapError (.resolving which ∘ .pool)) input := by
  cases found <;> rfl

/-- A step whose result is known, in front of others. -/
theorem bind_of_eq_at? {γ : Type} {x : Walk α} {f : α → Walk β} {g : γ → Except MetadataError β} {k : γ → α}
    {input mid rest : List UInt8} {result : Except MetadataError γ} (hx : x input = at? (result.map k) mid)
    (hf : ∀ c, f (k c) mid = at? (g c) rest) : (x >>= f) input = at? (result >>= g) rest := by
  rw [bind_eq, hx]
  cases result with
  | error error => rfl
  | ok c => exact hf c

end HeaderWalk

/-! ## What a class file says -/

namespace ClassFile

/-- The name of the class at an index, wanted as a name of the header. -/
def headerName (c : ClassFile) (which : HeaderName) (index : UInt16) : Except MetadataError String :=
  (c.pool.className index).mapError (.resolving which ∘ .pool)

/-- Whether a method is a public constructor without parameters. The name of a method counts only if it is public, and
the descriptor only if it is a constructor. -/
def isPublicNoArgConstructor (c : ClassFile) (m : Member) : Except MetadataError Bool := do
  if !m.access.isPublic then return false
  else if (← (c.memberName m).mapError .pool) != constructor then return false
  else return (← (c.memberDescriptor m).mapError .pool) == Outline.noArgDescriptor

/-- The name of the superclass, empty if there is none. -/
def superName (c : ClassFile) : Except MetadataError String :=
  if c.superClass = 0 then .ok "" else c.headerName .superClass c.superClass

/-- The facts that a class states. -/
def metadata (c : ClassFile) : Except MetadataError Metadata := do
  let name ← c.headerName .thisClass c.thisClass
  let superName ← c.superName
  let interfaces ← c.interfaces.mapM (c.headerName .interface)
  let constructors ← c.methods.mapM c.isPublicNoArgConstructor
  return ⟨name, superName, NameSet.ofList interfaces, c.access.isAbstract, c.access.isInterface, constructors.any id⟩

end ClassFile

/-! ## The walk -/

namespace HeaderWalk

theorem map_id_eq {α : Type} (result : Except MetadataError α) : result.map id = result := by
  cases result <;> rfl

theorem interfaces_spelled (c : ClassFile) (is : List UInt16) (found : NameSet) (rest : List UInt8) :
    interfaces c.pool is.length found (is.flatMap bytes16 ++ rest) =
      at? ((is.mapM (c.headerName .interface)).map (List.foldl (fun set name => set.insert name) found)) rest := by
  induction is generalizing found with
  | nil => rfl
  | cons i is ih =>
    have hlook : lookName .interface (c.pool.className i) (is.flatMap bytes16 ++ rest) =
        at? ((c.headerName .interface i).map id) (is.flatMap bytes16 ++ rest) := by
      rw [lookName_eq, map_id_eq]
      rfl
    rw [List.length_cons, interfaces, List.flatMap_cons, List.append_assoc, bind_of_eq_ok (take_u16 i _),
      bind_of_eq_at? hlook fun name => ih (found.insert name), List.mapM_cons]
    cases c.headerName .interface i with
    | error error => rfl
    | ok name => cases is.mapM (c.headerName .interface) <;> rfl

/-- What is passed over is a member that could be read. -/
theorem reads_member (part : FormatPart) :
    (Decoder.skip 6 >>= fun _ => Decoder.within part Attribute.skipAll).Reads
      fun _ raw => ∃ m : Member, m.Storable ∧ raw = m.spell := by
  refine ((Decoder.reads_skip 6).bind fun _ => Attribute.reads_skipAll.within part).congr fun _ raw => ?_
  constructor
  · rintro ⟨_, front, _, hfront, ⟨as, ⟨hlength, has⟩, rfl⟩, rfl⟩
    match front, hfront with
    | [a, b, c, d, e, f], _ =>
      refine ⟨⟨⟨UInt16.ofNat (a.toNat * 256 + b.toNat)⟩, UInt16.ofNat (c.toNat * 256 + d.toNat),
        UInt16.ofNat (e.toNat * 256 + f.toNat), as⟩, ⟨hlength, has⟩, ?_⟩
      simp only [Member.spell, Decoder.bytes16_of_u16]
      rfl
  · rintro ⟨m, hm, rfl⟩
    refine ⟨(), bytes16 m.access.bits ++ (bytes16 m.name ++ bytes16 m.descriptor), _, rfl,
      ⟨m.attributes, ⟨hm.attributes, hm.contents⟩, rfl⟩, ?_⟩
    simp only [Member.spell, List.append_assoc]

/-- A field is passed over just if it could be read, up to the same place. -/
theorem skipField_eq_ok_iff {input mid : List UInt8} :
    (∃ a mid', take (Decoder.skip 6) input = .ok (a, mid') ∧
      take (Decoder.within .skippedFieldAttributes Attribute.skipAll) mid' = .ok ((), mid)) ↔
        ∃ m, Member.decode input = .ok (m, mid) := by
  simp only [take_eq_ok_iff]
  rw [← Decoder.bind_eq_ok_iff, reads_member .skippedFieldAttributes input () mid]
  simp only [Member.reads_decode input _ mid]
  constructor
  · rintro ⟨raw, ⟨m, hm⟩, hinput⟩
    exact ⟨m, raw, hm, hinput⟩
  · rintro ⟨m, raw, hm, hinput⟩
    exact ⟨raw, ⟨m, hm⟩, hinput⟩

/-- Fields are passed over just if they could be read, up to the same place. -/
theorem fields_eq_ok_iff {n : Nat} {input rest : List UInt8} :
    fields n input = .ok ((), rest) ↔ ∃ ms, Decoder.times n Member.decode input = .ok (ms, rest) := by
  induction n generalizing input with
  | zero =>
    constructor
    · intro h
      cases h
      exact ⟨[], rfl⟩
    · rintro ⟨ms, hms⟩
      cases hms
      rfl
  | succ n ih =>
    rw [fields, Decoder.times_succ]
    simp only [bind_eq_ok_iff, Decoder.bind_eq_ok_iff, ih]
    constructor
    · rintro ⟨a, mid', hskip, _, mid, hattributes, ms, hms⟩
      obtain ⟨m, hm⟩ := skipField_eq_ok_iff.1 ⟨a, mid', hskip, hattributes⟩
      exact ⟨m :: ms, m, mid, hm, ms, rest, hms, rfl⟩
    · rintro ⟨_, m, mid, hm, ms, _, hms, hcons⟩
      cases hcons
      obtain ⟨a, mid', hskip, hattributes⟩ := skipField_eq_ok_iff.2 ⟨m, hm⟩
      exact ⟨a, mid', hskip, (), mid, hattributes, ms, hms⟩

theorem isPublicNoArgConstructor_eq (c : ClassFile) (m : Member) (input : List UInt8) :
    isPublicNoArgConstructor c.pool m.access.bits m.name m.descriptor input =
      at? (c.isPublicNoArgConstructor m) input := by
  have hlook (found : Except PoolError String) (rest : List UInt8) :
      look found rest = at? ((found.mapError MetadataError.pool).map id) rest := by rw [look_eq, map_id_eq]
  unfold isPublicNoArgConstructor ClassFile.isPublicNoArgConstructor
  split
  · rfl
  · refine bind_of_eq_at? (hlook _ _) fun name => ?_
    dsimp only [id]
    by_cases hname : (name != ClassFile.constructor) = true
    · rw [if_pos hname, if_pos hname]
      rfl
    · rw [if_neg hname, if_neg hname]
      exact bind_of_eq_at? (hlook _ _) fun descriptor => rfl

theorem methods_spelled (c : ClassFile) {ms : List Member} (hms : ∀ m ∈ ms, m.Storable) (found : Bool)
    (rest : List UInt8) :
    hasPublicNoArgConstructor c.pool ms.length found (ms.flatMap Member.spell ++ rest) =
      at? ((ms.mapM c.isPublicNoArgConstructor).map fun constructors => found || constructors.any id) rest := by
  induction ms generalizing found with
  | nil =>
    show Except.ok (found, rest) = Except.ok (found || false, rest)
    rw [Bool.or_false]
  | cons m ms ih =>
    obtain ⟨hm, hms⟩ := List.forall_mem_cons.1 hms
    have hattributes (rest : List UInt8) : take (Decoder.within .skippedMethodAttributes Attribute.skipAll)
        ((count16 m.attributes.length ++ m.attributes.flatMap Attribute.spell) ++ rest) = .ok ((), rest) :=
      take_of_reads (Attribute.reads_skipAll.within _) ⟨m.attributes, ⟨hm.attributes, hm.contents⟩, rfl⟩ rest
    have hhere (rest : List UInt8) : isPublicNoArgConstructor c.pool m.access.bits m.name m.descriptor rest =
        at? ((c.isPublicNoArgConstructor m).map id) rest := by rw [isPublicNoArgConstructor_eq, map_id_eq]
    simp only [List.length_cons, hasPublicNoArgConstructor, List.flatMap_cons, Member.spell, List.append_assoc]
    rw [bind_of_eq_ok (take_u16 _ _), bind_of_eq_ok (take_u16 _ _), bind_of_eq_ok (take_u16 _ _),
      ← List.append_assoc (count16 _), bind_of_eq_ok (hattributes _),
      bind_of_eq_at? (f := fun here => hasPublicNoArgConstructor c.pool ms.length (found || here)) (hhere _)
        fun here => ih hms _, List.mapM_cons]
    cases c.isPublicNoArgConstructor m with
    | error error => rfl
    | ok here =>
      cases ms.mapM c.isPublicNoArgConstructor with
      | error error => rfl
      | ok constructors => simp [at?, bind, Except.bind, Except.map, pure, Except.pure, Bool.or_assoc]

/-- What is read behind the names of the class and of its superclass. -/
def walkMembers (pool : ConstantPool) (access : UInt16) (name superName : String) : Walk Metadata := do
  let interfaceCount ← take Decoder.u16
  let interfaces ← interfaces pool interfaceCount.toNat NameSet.empty
  let fieldCount ← take Decoder.u16
  fields fieldCount.toNat
  let methodCount ← take Decoder.u16
  let constructor ← hasPublicNoArgConstructor pool methodCount.toNat false
  return ⟨name, superName, interfaces, AccessFlags.isAbstract ⟨access⟩, AccessFlags.isInterface ⟨access⟩, constructor⟩

/-- What is read behind the versions. -/
def walkBody : Walk Metadata := do
  let pool ← take (Decoder.within .constantPool ConstantPool.decode)
  let access ← take Decoder.u16
  let thisClass ← take Decoder.u16
  let superClass ← take Decoder.u16
  let name ← lookName .thisClass (pool.className thisClass)
  if superClass = 0 then walkMembers pool access name ""
  else
    let superName ← lookName .superClass (pool.className superClass)
    walkMembers pool access name superName

theorem walk_eq : walk = take Decoder.u32 >>= fun magic =>
    if magic != ClassFile.magic then throw (.format .badMagic) >>= fun () => take (Decoder.skip 4) >>= fun _ => walkBody
    else take (Decoder.skip 4) >>= fun _ => walkBody := rfl

theorem walkMembers_spelled {c : ClassFile} (hc : c.Storable) (name superName : String) (rest : List UInt8) :
    walkMembers c.pool c.access.bits name superName
      ((count16 c.interfaces.length ++ c.interfaces.flatMap bytes16) ++
        ((count16 c.fields.length ++ c.fields.flatMap Member.spell) ++
          ((count16 c.methods.length ++ c.methods.flatMap Member.spell) ++ rest))) =
      at? (do
        let interfaces ← c.interfaces.mapM (c.headerName .interface)
        let constructors ← c.methods.mapM c.isPublicNoArgConstructor
        return ⟨name, superName, NameSet.ofList interfaces, c.access.isAbstract, c.access.isInterface,
          constructors.any id⟩) rest := by
  have hfields (rest : List UInt8) :
      fields c.fields.length (c.fields.flatMap Member.spell ++ rest) = .ok ((), rest) := by
    refine fields_eq_ok_iff.2 ⟨c.fields, (Member.reads_decode.times _).complete ⟨rfl, c.fields.map Member.spell, ?_, ?_⟩ _⟩
    · exact Decoder.forall₂_spelled.2 ⟨hc.fieldsStorable, rfl⟩
    · rw [List.flatMap_def]
  have hcount {n : Nat} (hn : n < 0x10000) : (UInt16.ofNat n).toNat = n := UInt16.toNat_ofNat_of_lt' hn
  rw [walkMembers, List.append_assoc, count16, bind_of_eq_ok (take_u16 _ _), hcount hc.interfaces]
  refine bind_of_eq_at? (interfaces_spelled c c.interfaces NameSet.empty _) fun interfaces => ?_
  rw [List.append_assoc, count16, bind_of_eq_ok (take_u16 _ _), hcount hc.fields, bind_of_eq_ok (hfields _),
    List.append_assoc, count16, bind_of_eq_ok (take_u16 _ _), hcount hc.methods]
  exact bind_of_eq_at? (methods_spelled c hc.methodsStorable false _) fun constructors => rfl

/-- Over bytes that are a class file, a walk finds what the class states, or fails for the reason for which the class
states nothing. It stops in front of the attributes of the class. -/
theorem walk_eq_of_decode {data : List UInt8} {c : ClassFile} (h : ClassFile.decode data = .ok c) :
    walk data = at? c.metadata (count16 c.attributes.length ++ c.attributes.flatMap Attribute.spell) := by
  obtain ⟨hc, rfl⟩ := ClassFile.decode_eq_ok_iff.1 h
  have hversions (rest : List UInt8) : take (Decoder.skip 4)
      ((bytes16 c.minorVersion ++ bytes16 c.majorVersion) ++ rest) = .ok ((), rest) :=
    take_of_reads (Decoder.reads_skip 4) rfl rest
  have hpool (rest : List UInt8) : take (Decoder.within .constantPool ConstantPool.decode)
      (c.pool.encode ++ rest) = .ok (c.pool, rest) :=
    take_of_reads (ConstantPool.reads_decode.within _) ⟨hc.pool, rfl⟩ rest
  have hname (which : HeaderName) (index : UInt16) (rest : List UInt8) :
      lookName which (c.pool.className index) rest = at? ((c.headerName which index).map id) rest := by
    rw [lookName_eq, map_id_eq]
    rfl
  rw [walk_eq, ClassFile.spell, bind_of_eq_ok (take_of_reads Decoder.reads_u32 ⟨trivial, rfl⟩ _), if_neg (by simp),
    ClassFile.spellBody, ← List.append_assoc (bytes16 c.minorVersion), bind_of_eq_ok (hversions _), walkBody,
    bind_of_eq_ok (hpool _), bind_of_eq_ok (take_u16 _ _), bind_of_eq_ok (take_u16 _ _), bind_of_eq_ok (take_u16 _ _)]
  refine bind_of_eq_at? (hname _ _ _) fun name => ?_
  rw [ClassFile.superName]
  split
  · exact walkMembers_spelled hc _ _ _
  · exact bind_of_eq_at? (hname _ _ _) fun superName => walkMembers_spelled hc _ _ _

end HeaderWalk

/-! ## When a class states its facts -/

namespace ClassFile

variable {c : ClassFile}

/-- All names that count can be found: those of the header, those of public methods, and the descriptors of public
constructors. -/
structure Resolves (c : ClassFile) : Prop where
  name : ∃ name, c.pool.className c.thisClass = .ok name
  superName : c.superClass = 0 ∨ ∃ name, c.pool.className c.superClass = .ok name
  interfaces : ∀ index ∈ c.interfaces, ∃ name, c.pool.className index = .ok name
  methods : ∀ m ∈ c.methods, m.access.isPublic = true → ∃ name, c.pool.utf8 m.name = .ok name ∧
    (name = constructor → ∃ descriptor, c.pool.utf8 m.descriptor = .ok descriptor)

/-- A method is a public constructor without parameters. -/
structure IsConstructor (c : ClassFile) (m : Member) : Prop where
  access : m.access.isPublic = true
  name : c.pool.utf8 m.name = .ok constructor
  descriptor : c.pool.utf8 m.descriptor = .ok Outline.noArgDescriptor

/-- The metadata are those of the class. -/
structure Describes (c : ClassFile) (m : Metadata) : Prop where
  name : c.pool.className c.thisClass = .ok m.name
  noSuperName : c.superClass = 0 → m.superName = ""
  superName : c.superClass ≠ 0 → c.pool.className c.superClass = .ok m.superName
  interfaces : ∀ name, name ∈ m.interfaces ↔ ∃ index ∈ c.interfaces, c.pool.className index = .ok name
  isAbstract : m.isAbstract = c.access.isAbstract
  isInterface : m.isInterface = c.access.isInterface
  constructor : m.hasPublicNoArgConstructor = true ↔ ∃ method ∈ c.methods, c.IsConstructor method

theorem headerName_eq_ok_iff {which : HeaderName} {index : UInt16} {name : String} :
    c.headerName which index = .ok name ↔ c.pool.className index = .ok name := Except.mapError_eq_ok_iff

theorem superName_eq_ok_iff {name : String} : c.superName = .ok name ↔
    c.superClass = 0 ∧ name = "" ∨ c.superClass ≠ 0 ∧ c.pool.className c.superClass = .ok name := by
  rw [superName]
  split
  · next h => simp [h, eq_comm]
  · next h => simp [h, headerName_eq_ok_iff]

theorem isPublicNoArgConstructor_eq_ok_iff {m : Member} {found : Bool} :
    c.isPublicNoArgConstructor m = .ok found ↔
      (m.access.isPublic = true → ∃ name, c.pool.utf8 m.name = .ok name ∧
        (name = constructor → ∃ descriptor, c.pool.utf8 m.descriptor = .ok descriptor)) ∧
      (found = true ↔ c.IsConstructor m) := by
  have hiff : c.IsConstructor m ↔ m.access.isPublic = true ∧ c.pool.utf8 m.name = .ok constructor ∧
      c.pool.utf8 m.descriptor = .ok Outline.noArgDescriptor :=
    ⟨fun h => ⟨h.access, h.name, h.descriptor⟩, fun ⟨haccess, hname, hdescriptor⟩ => ⟨haccess, hname, hdescriptor⟩⟩
  rw [hiff, isPublicNoArgConstructor, memberName, memberDescriptor]
  cases haccess : m.access.isPublic with
  | false => cases found <;> simp [pure, Except.pure]
  | true =>
    cases hname : c.pool.utf8 m.name with
    | error error => simp [Except.mapError, bind, Except.bind]
    | ok name =>
      by_cases hconstructor : name = constructor
      · cases hdescriptor : c.pool.utf8 m.descriptor with
        | error error => simp [Except.mapError, bind, Except.bind, hconstructor]
        | ok descriptor =>
          simp only [Except.mapError, bind, Except.bind, hconstructor, pure, Except.pure]
          cases found <;> simp
      · cases found <;> simp [Except.mapError, bind, Except.bind, pure, Except.pure, hconstructor]

theorem metadata_eq_ok_iff {m : Metadata} : c.metadata = .ok m ↔
    ∃ name, c.pool.className c.thisClass = .ok name ∧ ∃ superName, c.superName = .ok superName ∧
      ∃ names, List.Forall₂ (fun index name => c.pool.className index = .ok name) c.interfaces names ∧
        ∃ constructors, List.Forall₂ (fun method found => c.isPublicNoArgConstructor method = .ok found) c.methods
          constructors ∧ (⟨name, superName, NameSet.ofList names, c.access.isAbstract, c.access.isInterface,
            constructors.any id⟩ : Metadata) = m := by
  simp only [metadata, Except.bind_eq_ok_iff, Except.pure_eq_ok_iff, Except.mapM_eq_ok_iff, headerName_eq_ok_iff]

theorem resolves_of_metadata {m : Metadata} (h : c.metadata = .ok m) : c.Resolves := by
  obtain ⟨name, hname, superName, hsuper, names, hnames, constructors, hconstructors, -⟩ := metadata_eq_ok_iff.1 h
  refine ⟨⟨name, hname⟩, ?_, fun index hindex => ?_, fun method hmethod => ?_⟩
  · rcases superName_eq_ok_iff.1 hsuper with ⟨hnone, -⟩ | ⟨-, hsome⟩
    · exact .inl hnone
    · exact .inr ⟨superName, hsome⟩
  · obtain ⟨name, -, hname⟩ := hnames.exists_of_mem hindex
    exact ⟨name, hname⟩
  · obtain ⟨found, -, hfound⟩ := hconstructors.exists_of_mem hmethod
    exact (isPublicNoArgConstructor_eq_ok_iff.1 hfound).1

theorem exists_metadata (h : c.Resolves) : ∃ m, c.metadata = .ok m := by
  obtain ⟨name, hname⟩ := h.name
  have hsuper : ∃ superName, c.superName = .ok superName := by
    by_cases hnone : c.superClass = 0
    · exact ⟨"", superName_eq_ok_iff.2 (.inl ⟨hnone, rfl⟩)⟩
    · obtain ⟨superName, hsome⟩ := h.superName.resolve_left hnone
      exact ⟨superName, superName_eq_ok_iff.2 (.inr ⟨hnone, hsome⟩)⟩
  obtain ⟨superName, hsuper⟩ := hsuper
  obtain ⟨names, hnames⟩ := List.exists_forall₂ h.interfaces
  obtain ⟨constructors, hconstructors⟩ := List.exists_forall₂
    (R := fun method found => c.isPublicNoArgConstructor method = .ok found) fun method hmethod => by
      classical
      exact ⟨decide (c.IsConstructor method),
        isPublicNoArgConstructor_eq_ok_iff.2 ⟨h.methods method hmethod, decide_eq_true_iff⟩⟩
  exact ⟨_, metadata_eq_ok_iff.2 ⟨name, hname, superName, hsuper, names, hnames, constructors, hconstructors, rfl⟩⟩

theorem describes_of_metadata {m : Metadata} (h : c.metadata = .ok m) : c.Describes m := by
  obtain ⟨name, hname, superName, hsuper, names, hnames, constructors, hconstructors, rfl⟩ := metadata_eq_ok_iff.1 h
  have hsuper := superName_eq_ok_iff.1 hsuper
  refine ⟨hname, fun hnone => ?_, fun hsome => ?_, fun name => ?_, rfl, rfl, ?_⟩
  · exact (hsuper.resolve_right fun h => h.1 hnone).2
  · exact (hsuper.resolve_left fun h => hsome h.1).2
  · rw [NameSet.mem_ofList]
    constructor
    · intro hmem
      obtain ⟨index, hindex, hname⟩ := hnames.flip.exists_of_mem hmem
      exact ⟨index, hindex, hname⟩
    · rintro ⟨index, hindex, hname⟩
      obtain ⟨name', hmem, hname'⟩ := hnames.exists_of_mem hindex
      rwa [Except.ok.inj (hname.symm.trans hname')]
  · simp only [List.any_eq_true, id]
    constructor
    · rintro ⟨found, hmem, hfound⟩
      obtain ⟨method, hmethod, hok⟩ := hconstructors.flip.exists_of_mem hmem
      exact ⟨method, hmethod, (isPublicNoArgConstructor_eq_ok_iff.1 hok).2.1 hfound⟩
    · rintro ⟨method, hmethod, hconstructor⟩
      obtain ⟨found, hmem, hok⟩ := hconstructors.exists_of_mem hmethod
      exact ⟨found, hmem, (isPublicNoArgConstructor_eq_ok_iff.1 hok).2.2 hconstructor⟩

end ClassFile

namespace HeaderWalk

theorem metadata_of_decode {data : List UInt8} {c : ClassFile} (h : ClassFile.decode data = .ok c) :
    metadata data = c.metadata := by
  rw [metadata, walk_eq_of_decode h, at?]
  cases c.metadata <;> rfl

/-- **The walk and the class file.** On bytes that are a class file, a walk finds metadata just if all names that count
can be found, and they are those of the class. Passing over attributes and fields ends where reading them does. -/
theorem agrees_of_decode {data : List UInt8} {c : ClassFile} (h : ClassFile.decode data = .ok c) :
    ((∃ m, metadata data = .ok m) ↔ c.Resolves) ∧
    (∀ m, metadata data = .ok m → c.Describes m) ∧
    (∀ input rest, Attribute.skipAll input = .ok ((), rest) ↔ ∃ as, Attribute.decodeAll input = .ok (as, rest)) ∧
    ∀ n input rest, fields n input = .ok ((), rest) ↔ ∃ ms, Decoder.times n Member.decode input = .ok (ms, rest) := by
  rw [metadata_of_decode h]
  refine ⟨⟨?_, ClassFile.exists_metadata⟩, fun m => ClassFile.describes_of_metadata,
    fun _ _ => Attribute.skipAll_eq_ok_iff, fun _ _ _ => fields_eq_ok_iff⟩
  rintro ⟨m, hm⟩
  exact ClassFile.resolves_of_metadata hm

/-- A class with an interface, a field and a public constructor, each member with an attribute. -/
def constructibleFile : ClassFile where
  minorVersion := 0
  majorVersion := 52
  pool := ⟨#[.unusable, .ofText "B", .classRef 1, .ofText "java/lang/Object", .classRef 3, .ofText "<init>",
    .ofText "()V"]⟩
  access := ⟨0x21⟩
  thisClass := 2
  superClass := 4
  interfaces := [4]
  fields := [⟨⟨0x02⟩, 1, 3, [⟨1, [7]⟩]⟩]
  methods := [⟨⟨0x01⟩, 5, 6, [⟨1, []⟩]⟩]
  attributes := []

/-- The bytes of that class. -/
def constructibleBytes : List UInt8 :=
  [0xca, 0xfe, 0xba, 0xbe, 0x00, 0x00, 0x00, 0x34, 0x00, 0x07, 0x01, 0x00, 0x01, 0x42, 0x07, 0x00, 0x01, 0x01,
    0x00, 0x10, 0x6a, 0x61, 0x76, 0x61, 0x2f, 0x6c, 0x61, 0x6e, 0x67, 0x2f, 0x4f, 0x62, 0x6a, 0x65, 0x63, 0x74,
    0x07, 0x00, 0x03, 0x01, 0x00, 0x06, 0x3c, 0x69, 0x6e, 0x69, 0x74, 0x3e, 0x01, 0x00, 0x03, 0x28, 0x29, 0x56,
    0x00, 0x21, 0x00, 0x02, 0x00, 0x04, 0x00, 0x01, 0x00, 0x04, 0x00, 0x01, 0x00, 0x02, 0x00, 0x01, 0x00, 0x03,
    0x00, 0x01, 0x00, 0x01, 0x00, 0x00, 0x00, 0x01, 0x07, 0x00, 0x01, 0x00, 0x01, 0x00, 0x05, 0x00, 0x06, 0x00,
    0x01, 0x00, 0x01, 0x00, 0x00, 0x00, 0x00, 0x00, 0x00]

theorem agrees_of_decode_constructibleBytes :
    ∃ m, metadata constructibleBytes = .ok m ∧ constructibleFile.Describes m := by
  have hread : ClassFile.decode constructibleBytes = .ok constructibleFile := by decide +kernel
  obtain ⟨hfound, hdescribes, -⟩ := agrees_of_decode hread
  have hresolves : constructibleFile.Resolves := by
    refine ⟨⟨"B", rfl⟩, .inr ⟨"java/lang/Object", rfl⟩, fun index hindex => ?_, fun m hm _ => ?_⟩
    · obtain rfl := List.mem_singleton.1 hindex
      exact ⟨"java/lang/Object", rfl⟩
    · obtain rfl := List.mem_singleton.1 hm
      exact ⟨"<init>", rfl, fun _ => ⟨"()V", rfl⟩⟩
  obtain ⟨m, hm⟩ := hfound.2 hresolves
  exact ⟨m, hm, hdescribes m hm⟩

end HeaderWalk

end Registrar
