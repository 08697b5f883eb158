import Registrar.Injection.Basic
import Registrar.Proofs.Bodies
import Registrar.Proofs.ControlFlow

/-!
# Methods with calls in them

* `Member.HasBody` : the body of a method;
* `InjectionMode.points` : the instructions that calls are put in front of;
* `TargetMethod.Injected` : what steps put into a method make of it. `TargetMethod.inject_ok` : `inject` does that;
* `SameRuns` : two codes have the same runs, up to stuttering and to what is inserted at the entry;
* `ClassDraft.runs_of_injectMethod` : the first rule keeps the control flow of a method.
-/

namespace Registrar

/-! ## The body of a method -/

namespace Member

/-- The body of a method is stored in its first attribute with the name `Code`. -/
def HasBody (m : Member) (pool : ConstantPool) (body : MethodBody) : Prop :=
  ∃ position a, m.attributePosition pool codeName = some position ∧ m.attributes[position]? = some a ∧
    MethodBody.decode a.content = .ok body

theorem HasBody.unique {m : Member} {pool : ConstantPool} {body body' : MethodBody} (h : m.HasBody pool body)
    (h' : m.HasBody pool body') : body = body' := by
  obtain ⟨position, a, hposition, ha, hbody⟩ := h
  obtain ⟨position', a', hposition', ha', hbody'⟩ := h'
  rw [hposition] at hposition'
  cases hposition'
  rw [ha] at ha'
  cases ha'
  rw [hbody] at hbody'
  cases hbody'
  rfl

theorem exists_of_attributePosition {m : Member} {pool : ConstantPool} {name : String} {position : Nat}
    (h : m.attributePosition pool name = some position) : ∃ a, m.attributes[position]? = some a := by
  obtain ⟨hlt, -⟩ := List.findIdx?_eq_some_iff_getElem.1 h
  exact ⟨_, List.getElem?_eq_getElem hlt⟩

/-- The position of an attribute depends on the names of the attributes only. -/
theorem attributePosition_congr {m m' : Member} (pool : ConstantPool) (name : String)
    (h : m'.attributes.map (·.name) = m.attributes.map (·.name)) :
    m'.attributePosition pool name = m.attributePosition pool name := by
  let named (index : UInt16) : Bool := isNamed pool name ⟨index, []⟩
  have hnames (as : List Attribute) : as.findIdx? (isNamed pool name) = (as.map (·.name)).findIdx? named := by
    rw [List.findIdx?_map]
    rfl
  rw [attributePosition, attributePosition, hnames, hnames, h]

end Member

namespace TargetMethod

theorem map_name_withContent (m : Member) (position : Nat) (content : List UInt8) :
    (withContent m position content).attributes.map (·.name) = m.attributes.map (·.name) := by
  rw [withContent]
  apply List.ext_getElem?
  intro i
  rw [List.getElem?_map, List.getElem?_map, List.getElem?_modify]
  cases m.attributes[i]? with
  | none => rfl
  | some a => by_cases h : position = i <;> simp [h]

theorem hasBody_withContent {m : Member} {pool : ConstantPool} {position : Nat} {content : List UInt8}
    {body : MethodBody} (hposition : m.attributePosition pool codeName = some position)
    (hbody : MethodBody.decode content = .ok body) : (withContent m position content).HasBody pool body := by
  obtain ⟨a, ha⟩ := Member.exists_of_attributePosition hposition
  refine ⟨position, { a with content }, ?_, ?_, hbody⟩
  · rwa [Member.attributePosition_congr pool codeName (map_name_withContent m position content)]
  · rw [withContent, List.getElem?_modify, ha]
    simp

end TargetMethod

/-! ## Injecting into a method -/

/-- The offsets that calls are put in front of. -/
def InjectionMode.points (mode : InjectionMode) (entryLength : Nat) (code : List Placed) : List Nat :=
  match mode with
  | .entry => [entryLength]
  | _ => (code.filter (·.instruction.isReturn)).map (·.offset)

/-- The insertions that put calls into a code. In front of a return they capture what pointed there. -/
def InjectionMode.insertions (mode : InjectionMode) (entryLength : Nat) (code : List Placed) (calls : List UInt8) :
    List Insertion := Insertion.at (mode.points entryLength code) calls (mode == .exit)

namespace MethodBody

theorem insertions_of_plan {body : MethodBody} {mode : InjectionMode} {entryLength : Nat} {calls : List UInt8}
    {need maxStack : UInt16} {insertions : List Insertion} {code : List Placed}
    (h : body.plan mode entryLength calls need = .ok (insertions, maxStack))
    (hcode : Placed.decodeAll body.code = .ok code) :
    mode ≠ .synthesize ∧ insertions = mode.insertions entryLength code calls := by
  cases mode with
  | entry =>
    cases h
    exact ⟨by decide, rfl⟩
  | exit =>
    simp only [plan, Except.bind_eq_ok_iff, Except.mapError_eq_ok_iff, Except.pure_eq_ok_iff, hcode, Except.ok.injEq,
      exists_eq_left', Prod.mk.injEq] at h
    obtain ⟨_, -, rfl, -⟩ := h
    refine ⟨by decide, ?_⟩
    simp [beforeReturns, InjectionMode.insertions, InjectionMode.points, Insertion.at]
  | synthesize => cases h

theorem withCalls_ok {body body' : MethodBody} {pool : ConstantPool} {method : String} {mode : InjectionMode}
    {entryLength : Nat} {calls : List UInt8} {need : UInt16}
    (h : body.withCalls pool method mode entryLength calls need = .ok body') :
    ∃ code moved, Placed.decodeAll body.code = .ok code ∧ mode ≠ .synthesize ∧
      body.insert (mode.insertions entryLength code calls) pool = .ok moved ∧
      body' = { moved with maxStack := body'.maxStack } := by
  simp only [withCalls, Except.bind_eq_ok_iff, Except.mapError_eq_ok_iff, Except.pure_eq_ok_iff] at h
  obtain ⟨⟨insertions, maxStack⟩, hplan, moved, hmoved, rfl⟩ := h
  obtain ⟨ss, hspliced, -⟩ := insert_eq_ok_iff.1 hmoved
  obtain ⟨hmode, rfl⟩ := insertions_of_plan hplan hspliced.decoded
  exact ⟨_, moved, hspliced.decoded, hmode, hmoved, rfl⟩

end MethodBody

theorem registrationIn_eq_ok_iff {context : CallContext} {calls : List RegisterCall} {pool pool' : ConstantPool}
    {bytes : List UInt8} :
    registrationIn context calls pool = .ok (bytes, pool') ↔
      ∃ steps, registrationSteps context calls pool = .ok steps pool' ∧
        bytes = steps.flatMap RegistrationStep.encode := by
  have hok : registrationIn context calls pool = .ok (bytes, pool') ↔
      registration context calls pool = .ok bytes pool' := by
    unfold registrationIn
    cases registration context calls pool <;> simp
  simp only [hok, registration_eq_ok_iff, RegistrationStep.straightBytes_map]

namespace TargetMethod

/-- The method `t'` is the method `t` with steps put in at once. The rest of it is left alone. The pool holds the names of
the attributes. -/
structure Injected (pool : ConstantPool) (mode : InjectionMode) (steps : List RegistrationStep) (t t' : TargetMethod) :
    Prop where
  isDeclared : mode ≠ .synthesize
  body : ∃ body code moved maxStack, t.member.HasBody pool body ∧ Placed.decodeAll body.code = .ok code ∧
    body.insert (mode.insertions t.entryLength code (steps.flatMap RegistrationStep.encode)) pool = .ok moved ∧
    moved.maxLocals = body.maxLocals ∧ t'.member.HasBody pool { moved with maxStack }
  member : ∃ position content, t.member.attributePosition pool codeName = some position ∧
    t'.member = withContent t.member position content
  entryLength : t'.entryLength = t.entryLengthAfter mode (steps.flatMap RegistrationStep.encode)

/-- What a method that calls are put into goes through: its body is read, changed and stored again. -/
theorem exists_of_inject {t t' : TargetMethod} {pool pool' : ConstantPool} {name : String} {mode : InjectionMode}
    {context : CallContext} {calls : List RegisterCall} (h : t.inject pool name mode context calls = .ok (t', pool')) :
    ∃ steps body body' position content, registrationSteps context calls pool = .ok steps pool' ∧
      t.member.HasBody pool' body ∧
      body.withCalls pool' name mode t.entryLength (steps.flatMap RegistrationStep.encode) context.stackNeed =
        .ok body' ∧
      t.member.attributePosition pool' codeName = some position ∧ MethodBody.decode content = .ok body' ∧
      t' = ⟨withContent t.member position content,
        t.entryLengthAfter mode (steps.flatMap RegistrationStep.encode)⟩ := by
  simp only [inject, Except.bind_eq_ok_iff] at h
  obtain ⟨⟨bytes, pool₁⟩, hregistration, h⟩ := h
  obtain ⟨steps, hsteps, rfl⟩ := registrationIn_eq_ok_iff.1 hregistration
  split at h
  · cases h
  · next position hposition =>
    simp only [Except.bind_eq_ok_iff, Except.mapError_eq_ok_iff, Except.pure_eq_ok_iff, Prod.mk.injEq] at h
    obtain ⟨body, hbody, body', hbody', content, hcontent, rfl, rfl⟩ := h
    obtain ⟨a, ha⟩ := Member.exists_of_attributePosition hposition
    rw [ha] at hbody
    obtain ⟨code, moved, -, -, hmoved, hmaxStack⟩ := MethodBody.withCalls_ok hbody'
    have hdecode : MethodBody.decode content = .ok body' := by
      have hcounts := MethodBody.counts_of_insert (MethodBody.decode_eq_ok_iff.1 hbody).1 hmoved
      rw [hmaxStack] at hcontent ⊢
      exact MethodBody.decode_of_encode hcontent hcounts.1 hcounts.2
    exact ⟨steps, body, body', position, content, hsteps, ⟨position, a, hposition, ha, hbody⟩, hbody', hposition,
      hdecode, rfl⟩

theorem inject_ok {t t' : TargetMethod} {pool pool' : ConstantPool} {name : String} {mode : InjectionMode}
    {context : CallContext} {calls : List RegisterCall} (h : t.inject pool name mode context calls = .ok (t', pool')) :
    ∃ steps, registrationSteps context calls pool = .ok steps pool' ∧ Injected pool' mode steps t t' := by
  obtain ⟨steps, body, body', position, content, hsteps, hbody, hbody', hposition, hdecode, rfl⟩ := exists_of_inject h
  obtain ⟨code, moved, hcode, hmode, hmoved, hmaxStack⟩ := MethodBody.withCalls_ok hbody'
  obtain ⟨ss, -, -, htables⟩ := MethodBody.insert_eq_ok_iff.1 hmoved
  have hhas := hasBody_withContent hposition hdecode
  rw [hmaxStack] at hhas
  exact ⟨steps, hsteps, hmode, ⟨body, code, moved, body'.maxStack, hbody, hcode, hmoved, htables.maxLocals, hhas⟩,
    ⟨position, content, hposition, rfl⟩, rfl⟩

end TargetMethod

/-! ## Runs -/

theorem InjectionMode.nodup_points {insertions : List Insertion} {e e' : Nat} {ss : List Splice} (mode : InjectionMode)
    (entryLength : Nat) (h : Splice.Chain insertions 0 0 ss e e') :
    (mode.points entryLength (ss.map (·.old))).Nodup := by
  have hoffsets : ((ss.map (·.old)).map (·.offset)).Nodup := by
    rw [List.map_map]
    refine List.pairwise_map.2 (h.pairwise.imp fun {s t} hst => ?_)
    have hpos := Instruction.size_pos s.old.offset s.old.instruction
    have hnext : s.old.next ≤ t.old.offset := hst.1
    show s.old.offset ≠ t.old.offset
    unfold Placed.next at hnext
    omega
  cases mode with
  | entry => simp [InjectionMode.points]
  | exit => exact hoffsets.sublist (List.filter_sublist.map _)
  | synthesize => exact hoffsets.sublist (List.filter_sublist.map _)

theorem Splice.Chain.offset_mem_points_exit {insertions : List Insertion} {o n e e' entryLength : Nat}
    {ss : List Splice} (h : Chain insertions o n ss e e') {s : Splice} (hs : s ∈ ss) :
    s.old.offset ∈ InjectionMode.exit.points entryLength (ss.map (·.old)) ↔ s.old.instruction.isReturn = true := by
  simp only [InjectionMode.points, List.mem_map, List.mem_filter]
  constructor
  · rintro ⟨_, ⟨⟨t, ht, rfl⟩, hreturn⟩, hoffset⟩
    rwa [h.eq_of_offset ht hs hoffset] at hreturn
  · exact fun hreturn => ⟨s.old, ⟨⟨s, hs, rfl⟩, hreturn⟩, rfl⟩

/-- The instructions that are put in front of an instruction, if `is` are put in front of those at some points. -/
def Splice.atPoints (points : List Nat) (is : List Instruction) (s : Splice) : List Instruction :=
  if s.old.offset ∈ points then is else []

namespace MethodBody

theorem Spliced.inserted_at {points : List Nat} {is : List Instruction} {captures : Bool} {code code' : List UInt8}
    {ss : List Splice} (h : Spliced (Insertion.at points (Instruction.straightBytes is) captures) code code' ss)
    (hpoints : points.Nodup) {s : Splice} (hs : s ∈ ss) :
    s.inserted = Instruction.straightBytes (s.atPoints points is) ∧
      s.captures = (decide (s.old.offset ∈ points) && captures) := by
  obtain ⟨hinserted, hcaptures⟩ := h.chain.inserted_eq hs
  rw [Insertion.bytesAt_at hpoints] at hinserted
  rw [Insertion.capturesAt_at hpoints] at hcaptures
  refine ⟨?_, hcaptures⟩
  rw [hinserted, Splice.atPoints]
  split_ifs <;> rfl

theorem forall_isStraight_atPoints {is : List Instruction} (his : ∀ i ∈ is, i.IsStraight) (points : List Nat)
    (s : Splice) : ∀ i ∈ s.atPoints points is, i.IsStraight := by
  rw [Splice.atPoints]
  split_ifs
  · exact his
  · simp

/-- Calls that are put in front of the first instruction or of every return are straight code that is put in. -/
theorem inlining_of_insert {body moved : MethodBody} {mode : InjectionMode} {code : List Placed}
    {is : List Instruction} {pool : ConstantPool} (his : ∀ i ∈ is, i.IsStraight)
    (hcode : Placed.decodeAll body.code = .ok code)
    (h : body.insert (mode.insertions 0 code (Instruction.straightBytes is)) pool = .ok moved)
    (hmode : mode ≠ .synthesize) :
    ∃ ss, Spliced (mode.insertions 0 code (Instruction.straightBytes is)) body.code moved.code ss ∧
      code = ss.map (·.old) ∧ (mode.points 0 code).Nodup ∧
      Inlining (mode.insertions 0 code (Instruction.straightBytes is)) body.code.length moved.code.length ss
        (Splice.atPoints (mode.points 0 code) is) body.handlers moved.handlers := by
  obtain ⟨ss, hspliced, -, htables⟩ := insert_eq_ok_iff.1 h
  have hold := hspliced.decoded
  rw [hcode] at hold
  cases hold
  have hpoints := mode.nodup_points 0 hspliced.chain
  refine ⟨ss, hspliced, rfl, hpoints, hspliced.chain, hspliced.moved, fun s hs => (hspliced.inserted_at hpoints hs).1,
    fun s _ => forall_isStraight_atPoints his _ s, fun s hs hne => ?_, htables.handlers⟩
  obtain ⟨hinserted, hcaptures⟩ := hspliced.inserted_at hpoints hs
  by_cases hpoint : s.old.offset ∈ mode.points 0 (ss.map (·.old))
  · have hexit : mode = .exit := by
      cases mode with
      | entry => exact absurd (List.mem_singleton.1 hpoint) hne
      | exit => rfl
      | synthesize => exact absurd rfl hmode
    subst hexit
    rw [Splice.target, hcaptures]
    simp [hpoint]
  · rw [Splice.atPoints, if_neg hpoint] at hinserted
    rw [Splice.target, Splice.position, hinserted]
    split_ifs <;> rfl

end MethodBody

/-- The runs of two step relations are the same, up to stuttering, if states of the second are mapped by `origin`. Only
states below `entryLength` have no image, and are dropped. -/
structure SameRuns (step step' : Nat → Nat → Prop) (origin : Nat → Option Nat) (entryLength : Nat) : Prop where
  dropped {n : ℕ∞} {u : Nat → Nat} : IsRun step' n u → u 0 = 0 → ∀ k : Nat, (k : ℕ∞) ≤ n → origin (u k) = none →
    u k < entryLength
  forward {n : ℕ∞} {u : Nat → Nat} : IsRun step' n u → u 0 = 0 →
    (∀ k : Nat, (k : ℕ∞) ≤ n → origin (u k) = none) ∨ ∃ m o, o 0 = 0 ∧ IsRun step m o ∧ Mirrors origin n u m o
  backward {m : ℕ∞} {o : Nat → Nat} : IsRun step m o → o 0 = 0 →
    ∃ n u, u 0 = 0 ∧ IsRun step' n u ∧ Mirrors origin n u m o

/-- The way to a return leads through all of the steps in front of it, from the first one on: behind the first step, and
to the return, control only comes from the step before. -/
def ReturnsBehind (steps : List RegistrationStep) (code : List Placed) (handlers : List Handler) (ss : List Splice) :
    Prop :=
  ∀ q ∈ code, q.instruction.isReturn = true →
    ∃ s ∈ ss, s.position = q.offset ∧ s.inserted = steps.flatMap RegistrationStep.encode ∧
      (∀ u u', Step code handlers u u' → s.start < u' → u' ≤ s.position → ∃ l < steps.length,
        u = s.start + ((steps.take l).flatMap RegistrationStep.encode).length ∧
        u' = s.start + ((steps.take (l + 1)).flatMap RegistrationStep.encode).length) ∧
      ∀ (n : ℕ∞) (u : Nat → Nat), IsRun (Step code handlers) n u → u 0 = 0 →
        ∀ k : Nat, (k : ℕ∞) ≤ n → u k = q.offset →
          ∃ j, j + steps.length = k ∧
            ∀ l ≤ steps.length, u (j + l) = s.start + ((steps.take l).flatMap RegistrationStep.encode).length

theorem Inlining.returnsBehind {insertions : List Insertion} {e e' : Nat} {ss : List Splice}
    {inner : Splice → List Instruction} {handlers handlers' : List Handler} {steps : List RegistrationStep}
    (h : Inlining insertions e e' ss inner handlers handlers')
    (hinner : ∀ s ∈ ss, s.old.instruction.isReturn = true →
      inner s = steps.map RegistrationStep.instruction ∧ s.target = s.start) :
    ReturnsBehind steps (Splice.newCode ss inner) handlers' ss := by
  intro q hq hreturn
  obtain ⟨s, hs, hq⟩ := List.mem_flatMap.1 hq
  rcases List.mem_append.1 hq with hq | hq
  · rw [(h.layOut_bounds hs hq).2.2.2.isReturn] at hreturn
    cases hreturn
  · obtain rfl := List.mem_singleton.1 hq
    rw [(h.moved s hs).isReturn] at hreturn
    obtain ⟨hsteps, htarget⟩ := hinner s hs hreturn
    have hinserted : s.inserted = steps.flatMap RegistrationStep.encode := by
      rw [h.inserted s hs, hsteps, RegistrationStep.straightBytes_map]
    have htake (l : Nat) : Instruction.straightBytes ((inner s).take l) =
        (steps.take l).flatMap RegistrationStep.encode := by
      rw [hsteps, ← List.map_take, RegistrationStep.straightBytes_map]
    have hcount : (inner s).length = steps.length := by rw [hsteps, List.length_map]
    refine ⟨s, hs, rfl, hinserted, fun u u' hstep hlow hhigh => ?_, fun n u hrun hzero k hk hu => ?_⟩
    · obtain ⟨p, hp, rfl, rfl⟩ := h.step_into hs htarget hstep hlow hhigh
      obtain ⟨l, hl, hoffset, hnext⟩ := Placed.exists_take_of_mem_layOut (h.straight s hs) hp
      rw [htake] at hoffset hnext
      exact ⟨l, hcount ▸ hl, hoffset, hnext⟩
    · have hu' : u k = s.start + (Instruction.straightBytes ((inner s).take (inner s).length)).length := by
        rw [hu, List.take_length, ← h.inserted s hs]
        rfl
      obtain ⟨j, hj, hall⟩ := h.passes hrun hzero hs htarget hk (Nat.le_refl _) hu'
      rw [hcount] at hj hall
      exact ⟨j, hj, fun l hl => by rw [hall l hl, htake]⟩

theorem ClassDraft.entryLength_of {file : ClassFile} {t : TargetMethod} (ht : t ∈ (ClassDraft.of file).methods) :
    t.entryLength = 0 := by
  simp only [ClassDraft.methods, ClassDraft.of, List.zipWith_map_right, List.zipWith_self, List.mem_map] at ht
  obtain ⟨m, -, rfl⟩ := ht
  rfl

/-- A rule that registers classes with `A.r`, in the static initializer. -/
def registryRule : Rule where
  config := .initial
  scanInterface := none
  scanSuperClasses := .empty
  included := []
  excluded := []
  targetClass := "A"
  targetMethod := ClassFile.staticInitializer
  registerMethod := "r"

/-- A static initializer that jumps over a `nop` to its return. -/
def registryInitializer : Member where
  access := .static
  name := 2
  descriptor := 3
  attributes := [⟨1, [0, 1, 0, 1, 0, 0, 0, 5, 0xa7, 0x00, 0x04, 0x00, 0xb1, 0, 0, 0, 0]⟩]

/-- The class with that initializer and with the method `r`. -/
def registryFile : ClassFile where
  minorVersion := 0
  majorVersion := 61
  pool := ⟨#[.unusable, .ofText codeName, .ofText "<clinit>", .ofText "()V", .ofText "r", .ofText "(LB;)V"]⟩
  access := ⟨0⟩
  thisClass := 0
  superClass := 0
  interfaces := []
  fields := []
  methods := [registryInitializer, ⟨.static, 4, 5, []⟩]
  attributes := []

/-- The initializer with the call of `r` for the class `B`. -/
def registryResult : TargetMethod where
  member := { registryInitializer with attributes := [⟨1, [0, 3, 0, 1, 0, 0, 0, 15, 0xa7, 0x00, 0x04, 0x00,
    0xbb, 0, 7, 0x59, 0xb7, 0, 10, 0xb8, 0, 14, 0xb1, 0, 0, 0, 0]⟩] }
  entryLength := 0

/-- The pool with the constants of that call. -/
def registryPool : ConstantPool where
  entries := registryFile.pool.entries ++ #[.ofText "B", .classRef 6, .ofText "<init>", .nameAndType 8 3,
    .methodRef 7 9, .ofText "A", .classRef 11, .nameAndType 4 5, .methodRef 12 13]

theorem ClassDraft.injectMethod_registry :
    (ClassDraft.of registryFile).injectMethod registryRule [⟨"B", "(LB;)V", true, 0⟩] registryFile.pool
      ⟨registryInitializer, 0⟩ = .ok (registryResult, registryPool) := by
  decide +kernel

/-- **Control flow.** A method into which the first rule of a class puts its calls has the runs that it had before. An
offset in the steps in front of a return stands for the return, those of the steps at the entry are dropped. Where calls
are put in front of the returns, a return is reached through all of them only. -/
theorem ClassDraft.runs_of_injectMethod {file : ClassFile} {r : Rule} {calls : List RegisterCall}
    {pool pool' : ConstantPool} {t t' : TargetMethod} (ht : t ∈ (ClassDraft.of file).methods)
    (h : (ClassDraft.of file).injectMethod r calls pool t = .ok (t', pool')) :
    ∃ mode steps body body' code code' ss,
      InjectionMode.select? true t.member.isStatic (targetsInitializer r) = some mode ∧
      registrationSteps ((ClassDraft.of file).context r t.member.isStatic) calls pool = .ok steps pool' ∧
      t.member.HasBody pool' body ∧ Placed.decodeAll body.code = .ok code ∧
      t'.member.HasBody pool' body' ∧ Placed.decodeAll body'.code = .ok code' ∧
      MethodBody.Spliced (mode.insertions 0 code (steps.flatMap RegistrationStep.encode)) body.code body'.code ss ∧
      SameRuns (Step code body.handlers) (Step code' body'.handlers)
        (Splice.origin ss body.code.length body'.code.length) t'.entryLength ∧
      (mode = .exit → ReturnsBehind steps code' body'.handlers ss) := by
  rw [injectMethod] at h
  split at h
  · next hnone =>
    rw [InjectionMode.select?, if_pos rfl] at hnone
    cases hnone
  · next mode hselect =>
    simp only [Except.bind_eq_ok_iff, Except.mapError_eq_ok_iff] at h
    obtain ⟨-, -, h⟩ := h
    obtain ⟨steps, hsteps, hmode, ⟨body, code, moved, maxStack, hbody, hcode, hmoved, -, hbody'⟩, -, hlength⟩ :=
      TargetMethod.inject_ok h
    rw [entryLength_of ht, ← RegistrationStep.straightBytes_map] at hmoved
    have hstraight := forall_isStraight steps
    obtain ⟨ss, hspliced, rfl, hpoints, hinlining⟩ := MethodBody.inlining_of_insert hstraight hcode hmoved hmode
    have hdecoded := hspliced.decodeAll_eq hinlining.inserted hinlining.straight
    rw [RegistrationStep.straightBytes_map] at hspliced
    refine ⟨mode, steps, body, _, _, _, ss, hselect, hsteps, hbody, hcode, hbody', hdecoded, hspliced,
      ⟨?_, hinlining.forward, hinlining.backward⟩, ?_⟩
    · intro n u hrun hzero k hk hnone
      obtain ⟨s, hs, -, hcaptures, hlt⟩ := hinlining.lt_of_origin_eq_none hrun hzero hk hnone
      have hinserted := hinlining.inserted s hs
      rw [Splice.atPoints] at hinserted
      split_ifs at hinserted with hpoint
      · rw [RegistrationStep.straightBytes_map] at hinserted
        have hcaptures' := (hspliced.chain.inserted_eq hs).2
        rw [InjectionMode.insertions, Insertion.capturesAt_at hpoints, hcaptures] at hcaptures'
        cases mode with
        | entry =>
          rw [hlength, TargetMethod.entryLengthAfter, entryLength_of ht, ← hinserted, Nat.zero_add]
          exact hlt
        | exit => simp [hpoint] at hcaptures'
        | synthesize => exact absurd rfl hmode
      · rw [hinserted] at hlt
        cases hlt
    · rintro rfl
      refine hinlining.returnsBehind fun s hs hreturn => ?_
      have hpoint : s.old.offset ∈ InjectionMode.exit.points 0 (ss.map (·.old)) :=
        (hspliced.chain.offset_mem_points_exit hs).2 hreturn
      have hcaptures := (hspliced.chain.inserted_eq hs).2
      rw [InjectionMode.insertions, Insertion.capturesAt_at hpoints] at hcaptures
      refine ⟨if_pos hpoint, ?_⟩
      rw [Splice.target, if_pos]
      simpa [hpoint] using hcaptures

theorem ClassDraft.runs_of_injectMethod_registry :
    ∃ mode steps body body' code code' ss,
      InjectionMode.select? true registryInitializer.isStatic (targetsInitializer registryRule) = some mode ∧
      registrationSteps ((ClassDraft.of registryFile).context registryRule registryInitializer.isStatic)
        [⟨"B", "(LB;)V", true, 0⟩] registryFile.pool = .ok steps registryPool ∧
      registryInitializer.HasBody registryPool body ∧ Placed.decodeAll body.code = .ok code ∧
      registryResult.member.HasBody registryPool body' ∧ Placed.decodeAll body'.code = .ok code' ∧
      MethodBody.Spliced (mode.insertions 0 code (steps.flatMap RegistrationStep.encode)) body.code body'.code ss ∧
      SameRuns (Step code body.handlers) (Step code' body'.handlers)
        (Splice.origin ss body.code.length body'.code.length) registryResult.entryLength ∧
      (mode = .exit → ReturnsBehind steps code' body'.handlers ss) :=
  ClassDraft.runs_of_injectMethod List.mem_cons_self ClassDraft.injectMethod_registry

end Registrar
