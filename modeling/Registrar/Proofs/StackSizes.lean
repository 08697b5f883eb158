import Registrar.Proofs.FailedRules
import Registrar.Proofs.Frames
import Registrar.Proofs.OperandStack

/-!
# The sizes of operand stacks

* `InjectionMode.stackAfter` : the size of a stack after rules;
* `ClassDraft.Stacked`, `ClassDraft.Initialized` : a method with the calls of rules in it, and how large its stack is.
  `Stacked.accounted` : the stack stays within that size if it stayed within the old one;
* `ClassDraft.Accounts` : what rules make of all methods of a class. `accounts_of_inject` : one more rule;
* `ClassDraft.KeepsStacks`, `keepsStacks_of_decode` : all rules.
-/

namespace Registrar

open ConstantPool (Extends)

/-! ## Sizes -/

/-- The size of a stack after `rules` rules, one at least, have put their calls into a method. Calls in front of a return
need slots above what the stack holds, those at the entry do not. -/
def InjectionMode.stackAfter (mode : InjectionMode) (need rules maxStack : Nat) : Nat :=
  match mode with
  | .entry => max maxStack need
  | _ => maxStack + rules * need

theorem InjectionMode.stackAfter_stackAfter (mode : InjectionMode) (need rules rules' maxStack : Nat) :
    mode.stackAfter need rules' (mode.stackAfter need rules maxStack) =
      mode.stackAfter need (rules + rules') maxStack := by
  cases mode with
  | entry =>
    show max (max maxStack need) need = max maxStack need
    omega
  | exit | synthesize =>
    show maxStack + rules * need + rules' * need = maxStack + (rules + rules') * need
    rw [Nat.add_mul, Nat.add_assoc]

namespace MethodBody

theorem stackAfter_of_withCalls {body body' : MethodBody} {pool : ConstantPool} {method : String} {mode : InjectionMode}
    {entryLength : Nat} {calls : List UInt8} {need : UInt16}
    (h : body.withCalls pool method mode entryLength calls need = .ok body') :
    body'.maxStack.toNat = mode.stackAfter need.toNat 1 body.maxStack.toNat := by
  simp only [withCalls, Except.bind_eq_ok_iff, Except.pure_eq_ok_iff] at h
  obtain ⟨⟨insertions, maxStack⟩, hplan, moved, -, rfl⟩ := h
  cases mode with
  | entry =>
    cases hplan
    exact UInt16.toNat_max _ _
  | exit =>
    simp only [plan, Except.bind_eq_ok_iff, Except.pure_eq_ok_iff, Prod.mk.injEq] at hplan
    obtain ⟨_, -, raised, hraised, -, rfl⟩ := hplan
    unfold raisedStack at hraised
    split_ifs at hraised with hlt
    cases hraised
    show (body.maxStack + need).toNat = body.maxStack.toNat + 1 * need.toNat
    rw [UInt16.toNat_add, Nat.mod_eq_of_lt hlt, Nat.one_mul]
  | synthesize => cases hplan

/-- A stack that would be too large is reported. -/
theorem withCalls_of_overflow {body : MethodBody} {code : List Placed} (pool : ConstantPool) (method : String)
    (entryLength : Nat) (calls : List UInt8) {need : UInt16} (hcode : Placed.decodeAll body.code = .ok code)
    (h : 65535 < body.maxStack.toNat + need.toNat) :
    body.withCalls pool method .exit entryLength calls need = .error .stackTooLarge := by
  have hraised : raisedStack body.maxStack need = .error .stackTooLarge := if_neg (by omega)
  rw [withCalls, plan, hcode, hraised]
  rfl

example : raisedStack 65533 2 = .ok 65535 ∧ raisedStack 65534 2 = .error .stackTooLarge := by decide

end MethodBody

/-! ## Methods -/

namespace TargetMethod

variable {P Q : ConstantPool} {mode : InjectionMode} {need rules rules' : Nat} {t t₁ t₂ : TargetMethod}

/-- Both methods have bodies, and the stack of the second one is as large as it must be after so many rules. -/
def Raises (pool : ConstantPool) (mode : InjectionMode) (need rules : Nat) (t t' : TargetMethod) : Prop :=
  ∃ body body', t.member.HasBody pool body ∧ t'.member.HasBody pool body' ∧
    body'.maxStack.toNat = mode.stackAfter need rules body.maxStack.toNat

theorem Raises.extends (hPQ : Extends P Q) (h : Raises P mode need rules t t₁) : Raises Q mode need rules t t₁ := by
  obtain ⟨body, body', hbody, hbody', hraised⟩ := h
  exact ⟨body, body', hbody.extends hPQ, hbody'.extends hPQ, hraised⟩

theorem Raises.trans (h₁ : Raises P mode need rules t t₁) (h₂ : Raises P mode need rules' t₁ t₂) :
    Raises P mode need (rules + rules') t t₂ := by
  obtain ⟨body, body₁, hbody, hbody₁, hraised⟩ := h₁
  obtain ⟨body₁', body₂, hbody₁', hbody₂, hraised'⟩ := h₂
  obtain rfl := hbody₁.unique hbody₁'
  refine ⟨body, body₂, hbody, hbody₂, ?_⟩
  rw [hraised', hraised, mode.stackAfter_stackAfter]

theorem raises_of_inject {name : String} {context : CallContext} {calls : List RegisterCall}
    (h : t.inject P name mode context calls = .ok (t₁, Q)) :
    Raises Q mode (registrationNeed context.isStatic) 1 t t₁ := by
  obtain ⟨steps, body, body', position, content, -, hbody, hbody', hposition, hdecode, rfl⟩ := exists_of_inject h
  refine ⟨body, body', hbody, hasBody_withContent hposition hdecode, ?_⟩
  rw [← context.toNat_stackNeed]
  exact MethodBody.stackAfter_of_withCalls hbody'

/-- The code of `t'` is that of `t` with instructions put in at the points of a mode. The stack of `t'` is as large as it
must be after so many rules. If the stack of `t` stays within its size, then so does that of `t'`. An inserted instruction
finds what it takes off the stack above a height that the stack could have before: at a return, or where a method
starts. -/
def Accounted (pool : ConstantPool) (mode : InjectionMode) (need rules : Nat) (is : List Instruction)
    (t t' : TargetMethod) : Prop :=
  ∃ body body' code code' ss, t.member.HasBody pool body ∧ Placed.decodeAll body.code = .ok code ∧
    t'.member.HasBody pool body' ∧ Placed.decodeAll body'.code = .ok code' ∧
    code = ss.map Splice.old ∧ code' = Splice.newCode ss (Splice.atPoints (mode.points 0 code) is) ∧
    body'.maxStack.toNat = mode.stackAfter need rules body.maxStack.toNat ∧ body'.maxLocals = body.maxLocals ∧
    ∀ E : StackEffects pool, StaysWithin E.effect code body.handlers body.maxStack.toNat →
      StaysWithin E.effect code' body'.handlers body'.maxStack.toNat ∧
      ∀ s ∈ ss, ∀ q ∈ Placed.layOut s.start (Splice.atPoints (mode.points 0 code) is s), ∀ height,
        HasHeight E.effect code' body'.handlers q.offset height →
        ∃ base, HasHeight E.effect code body.handlers s.old.offset base ∧
          (mode = .exit → s.old.instruction.isReturn = true) ∧ (mode = .entry → base = 0) ∧
          base + (E.effect q.instruction).pops ≤ height ∧ height ≤ body'.maxStack.toNat ∧
          (E.effect q.instruction).after height ≤ body'.maxStack.toNat

/-- Steps that leave the stack as they find it are accounted for. -/
theorem Injected.accounted {steps : List RegistrationStep} (h : Injected P mode steps t t₁) (hzero : t.entryLength = 0)
    (hraises : Raises P mode need rules t t₁) (hrules : 0 < rules)
    (hbalances : P.Balances need (steps.map RegistrationStep.instruction)) :
    Accounted P mode need rules (steps.map RegistrationStep.instruction) t t₁ := by
  obtain ⟨hmode, ⟨body, code, moved, maxStack, hbody, hcode, hmoved, hlocals, hbody'⟩, -, -⟩ := h
  rw [hzero, ← RegistrationStep.straightBytes_map] at hmoved
  obtain ⟨ss, hspliced, rfl, hpoints, hinlining⟩ :=
    MethodBody.inlining_of_insert (forall_isStraight steps) hcode hmoved hmode
  have hdecoded := hspliced.decodeAll_eq hinlining.inserted hinlining.straight
  obtain ⟨b, b', hb, hb', hsize⟩ := hraises
  obtain rfl := hbody.unique hb
  obtain rfl := hbody'.unique hb'
  refine ⟨body, _, _, _, ss, hbody, hcode, hbody', hdecoded, rfl, rfl, hsize, hlocals, fun E hold => ?_⟩
  generalize hinner : Splice.atPoints (mode.points 0 (ss.map (·.old))) (steps.map RegistrationStep.instruction) = inner
    at hinlining ⊢
  have hpoint {s : Splice} (hne : inner s ≠ []) : s.old.offset ∈ mode.points 0 (ss.map (·.old)) := by
    by_contra hnot
    rw [← hinner, Splice.atPoints, if_neg hnot] at hne
    exact hne rfl
  have hexecutes : ∀ s ∈ ss, ∀ base, Executes base (base + need) ((inner s).map E.effect) base base := by
    intro s _ base
    rw [← hinner, Splice.atPoints]
    split_ifs
    · exact hbalances.executes E base
    · exact ConstantPool.Balances.nil.executes E base
  -- What is inserted at the entry is not pointed at, and needs no room above the old stack.
  have hroom : ∀ s ∈ ss, inner s ≠ [] →
      (mode = .exit ∧ body.maxStack.toNat + need ≤ maxStack.toNat) ∨
        (mode = .entry ∧ s.target = s.position ∧ need ≤ maxStack.toNat) := by
    intro s hs hne
    change maxStack.toNat = _ at hsize
    cases mode with
    | entry =>
      refine Or.inr ⟨rfl, if_neg ?_, ?_⟩
      · rw [(hspliced.inserted_at hpoints hs).2]
        simp
      · rw [hsize]
        exact Nat.le_max_right _ _
    | exit =>
      refine Or.inl ⟨rfl, ?_⟩
      rw [hsize]
      exact Nat.add_le_add_left (Nat.le_mul_of_pos_left need hrules) _
    | synthesize => exact absurd rfl hmode
  have hle : body.maxStack.toNat ≤ maxStack.toNat := by
    change maxStack.toNat = _ at hsize
    rw [hsize]
    cases mode with
    | entry => exact Nat.le_max_left _ _
    | exit | synthesize => exact Nat.le_add_right _ _
  have hwithin := hinlining.staysWithin E.moved hexecutes hold hle
    fun s hs hne => (hroom s hs hne).imp (·.2) (·.2)
  refine ⟨hwithin, fun s hs q hq height hheight => ?_⟩
  have hne : inner s ≠ [] := by
    intro hnil
    rw [hnil] at hq
    cases hq
  obtain ⟨base, hbase, hempty, hpops, -, hafter⟩ := hinlining.exists_base E.moved hexecutes hs hq hheight
  have hposition := hinlining.layOut_bounds hs hq
  have hbound := hold _ _ hbase
  refine ⟨base, hbase, ?_, ?_, hpops, hwithin _ _ hheight, ?_⟩
  · rintro rfl
    exact (hspliced.chain.offset_mem_points_exit hs).1 (hpoint hne)
  · rintro rfl
    rcases hroom s hs hne with ⟨hexit, -⟩ | ⟨-, htarget, -⟩
    · cases hexit
    · exact hempty (by omega)
  · change _ ≤ maxStack.toNat
    rcases hroom s hs hne with ⟨-, hroom⟩ | ⟨-, htarget, hroom⟩
    · omega
    · have := hempty (by omega)
      omega

end TargetMethod

/-! ## A new static initializer -/

theorem not_step_return (o u : Nat) : ¬ Step [⟨0, .plain Opcode.returnVoid []⟩] [] o u := by
  intro hstep
  cases hstep with
  | fall hp hfalls =>
    obtain rfl := List.mem_singleton.1 hp
    cases hfalls
  | jump hp hd =>
    obtain rfl := List.mem_singleton.1 hp
    cases hd
  | ret hp hret =>
    obtain rfl := List.mem_singleton.1 hp
    cases hret
  | raise _ hh => cases hh

/-- The stack of a method that returns at once is empty. -/
theorem HasHeight.eq_zero {effect : Instruction → StackEffect} {u height : Nat}
    (h : HasHeight effect [⟨0, .plain Opcode.returnVoid []⟩] [] u height) : height = 0 := by
  cases h with
  | refl => rfl
  | tail _ hstep =>
    cases hstep with
    | advance _ _ hnext => exact absurd hnext (not_step_return _ _)
    | raise _ hh => cases hh

/-- Straight code in front of a return is put into a method that returns at once. -/
theorem inlining_return {is : List Instruction} (his : ∀ i ∈ is, i.IsStraight) :
    ∃ s : Splice, s.old = ⟨0, .plain Opcode.returnVoid []⟩ ∧ s.start = 0 ∧
      Splice.newCode [s] (fun _ => is) =
        Placed.layOut 0 is ++ [⟨(Instruction.straightBytes is).length, .plain Opcode.returnVoid []⟩] ∧
      Inlining [⟨0, Instruction.straightBytes is, true⟩] 1 s.stop [s] (fun _ => is) [] [] := by
  let s : Splice :=
    ⟨⟨0, .plain Opcode.returnVoid []⟩, 0, Instruction.straightBytes is, true, .plain Opcode.returnVoid []⟩
  have hposition : s.position = (Instruction.straightBytes is).length := Nat.zero_add _
  have hinserted : s.inserted = Insertion.bytesAt [⟨0, Instruction.straightBytes is, true⟩] s.old.offset := by
    simp [s, Insertion.bytesAt, Insertion.group, Insertion.groupBytes]
  have hcaptures : s.captures = Insertion.capturesAt [⟨0, Instruction.straightBytes is, true⟩] s.old.offset := by
    simp [s, Insertion.capturesAt, Insertion.group]
  refine ⟨s, rfl, rfl, ?_, .cons hinserted hcaptures (.nil _ _), ?_, ?_, ?_, ?_, .nil⟩
  · rw [← hposition]
    simp [Splice.newCode, Splice.placed, s]
  · exact List.forall_mem_singleton.2 (.plain _ _)
  · exact List.forall_mem_singleton.2 rfl
  · exact List.forall_mem_singleton.2 his
  · exact List.forall_mem_singleton.2 fun hne => absurd rfl hne

/-- The method consists of instructions and a return. Its stack is as large as it must be after so many rules, and stays
within that size. The instructions find on it what they take off. -/
def Member.Accounted (pool : ConstantPool) (rules : Nat) (is : List Instruction) (m : Member) : Prop :=
  ∃ body code, m.HasBody pool body ∧ Placed.decodeAll body.code = .ok code ∧
    code = Placed.layOut 0 is ++ [⟨(Instruction.straightBytes is).length, .plain Opcode.returnVoid []⟩] ∧
    body.handlers = [] ∧ body.maxStack.toNat = rules * registrationNeed true ∧
    ∀ E : StackEffects pool, StaysWithin E.effect code body.handlers body.maxStack.toNat ∧
      ∀ q ∈ Placed.layOut 0 is, ∀ height, HasHeight E.effect code body.handlers q.offset height →
        (E.effect q.instruction).pops ≤ height ∧ (E.effect q.instruction).after height ≤ body.maxStack.toNat

theorem Member.Initializes.accounted {P : ConstantPool} {steps : List RegistrationStep} {rules : Nat} {m : Member}
    {body : MethodBody} (h : m.Initializes P steps) (hbody : m.HasBody P body)
    (hsize : body.maxStack.toNat = rules * registrationNeed true) (hrules : 0 < rules)
    (hbalances : P.Balances (registrationNeed true) (steps.map RegistrationStep.instruction)) :
    m.Accounted P rules (steps.map RegistrationStep.instruction) := by
  have hstraight := forall_isStraight steps
  obtain ⟨maxStack, hbody'⟩ := h.body
  obtain rfl := hbody.unique hbody'
  obtain ⟨s, hold, hstart, hcode, hinlining⟩ := inlining_return hstraight
  have hdecoded := MethodBody.decodeAll_straightBytes_return hstraight
  rw [RegistrationStep.straightBytes_map] at hdecoded
  refine ⟨_, _, hbody, hdecoded, by rw [RegistrationStep.straightBytes_map], rfl, hsize, fun E => ?_⟩
  have hexecutes : ∀ t ∈ [s], ∀ base, Executes base (base + registrationNeed true)
      ((steps.map RegistrationStep.instruction).map E.effect) base base := fun _ _ => hbalances.executes E
  have hneed : registrationNeed true ≤ maxStack.toNat := by
    change maxStack.toNat = _ at hsize
    rw [hsize]
    exact Nat.le_mul_of_pos_left _ hrules
  have hempty : StaysWithin E.effect ([s].map (·.old)) [] 0 := by
    intro u height hheight
    rw [List.map_singleton, hold] at hheight
    exact hheight.eq_zero.le
  rw [RegistrationStep.straightBytes_map] at hcode
  rw [← hcode]
  refine ⟨hinlining.staysWithin E.moved hexecutes hempty (Nat.zero_le _) fun _ _ _ =>
    Or.inl ((Nat.zero_add _).le.trans hneed), ?_⟩
  intro q hq height hheight
  rw [← hstart] at hq
  obtain ⟨base, hbase, -, hpops, -, hafter⟩ :=
    hinlining.exists_base E.moved hexecutes (List.mem_singleton_self s) hq hheight
  have hzero := hempty _ _ hbase
  constructor
  · omega
  · change _ ≤ maxStack.toNat
    omega

/-! ## Rules -/

namespace ClassDraft

variable {d d' d₀ d₁ d₂ : ClassDraft} {name : String} {g : GroupRule} {gs gs' : List GroupRule}
  {t t' t₁ t₂ : TargetMethod} {m : Member}

/-- The method `t'` is the method `t` with the calls of rules in it, and its stack is as large as it must be. -/
structure Stacked (d : ClassDraft) (name : String) (gs : List GroupRule) (t t' : TargetMethod) : Prop where
  composed : d.Composed name gs t t'
  raises : ∀ mode, InjectionMode.select? true t.member.isStatic (name == ClassFile.staticInitializer) = some mode →
    TargetMethod.Raises d.file.pool mode (registrationNeed t.member.isStatic) gs.length t t'

/-- The method is a static initializer that holds nothing but the calls of rules, and its stack is as large as it must
be. -/
def Initialized (d : ClassDraft) (gs : List GroupRule) (m : Member) : Prop :=
  ∃ stepss body, List.Forall₂ (d.Registers true) gs stepss ∧ m.Initializes d.file.pool stepss.flatten ∧
    m.HasBody d.file.pool body ∧ body.maxStack.toNat = gs.length * registrationNeed true

theorem Stacked.sameDeclaration (h : d.Stacked name gs t t') : t.member.SameDeclaration t'.member := by
  obtain ⟨mode, stepss, -, -, hinjected⟩ := h.composed
  exact hinjected.sameDeclaration

theorem Stacked.grows (hgrows : d.file.Grows d'.file) (h : d.Stacked name gs t t') : d'.Stacked name gs t t' := by
  obtain ⟨⟨mode, stepss, hselect, hstepss, hinjected⟩, hraises⟩ := h
  exact ⟨⟨mode, stepss, hselect, hstepss.imp fun _ _ h => h.grows hgrows, hinjected.extends hgrows.pool⟩,
    fun mode hselect => (hraises mode hselect).extends hgrows.pool⟩

theorem Stacked.trans (hgrows : d₁.file.Grows d₂.file) (hzero : t.entryLength = 0) (h₁ : d₁.Stacked name gs t t₁)
    (h₂ : d₂.Stacked name gs' t₁ t₂) : d₂.Stacked name (gs ++ gs') t t₂ := by
  have hstatic := h₁.sameDeclaration.isStatic
  refine ⟨h₁.composed.trans hgrows hzero h₂.composed, fun mode hselect => ?_⟩
  have hraises := h₂.raises mode
  rw [hstatic] at hraises
  rw [List.length_append]
  exact ((h₁.raises mode hselect).extends hgrows.pool).trans (hraises hselect)

theorem Initialized.grows (hgrows : d.file.Grows d'.file) (h : d.Initialized gs m) : d'.Initialized gs m := by
  obtain ⟨stepss, body, hstepss, hinitializes, hbody, hsize⟩ := h
  exact ⟨stepss, body, hstepss.imp fun _ _ h => h.grows hgrows, hinitializes.extends hgrows.pool,
    hbody.extends hgrows.pool, hsize⟩

/-- More calls go between those that a new static initializer holds and its return. -/
theorem Initialized.trans (hgrows : d₁.file.Grows d₂.file) (h₁ : d₁.Initialized gs m)
    (h₂ : d₂.Stacked ClassFile.staticInitializer gs' ⟨m, 0⟩ t) :
    d₂.Initialized (gs ++ gs') t.member ∧ t.entryLength = 0 := by
  obtain ⟨stepss, body, hstepss, hinitializes, hbody, hsize⟩ := h₁.grows hgrows
  obtain ⟨stepss', hstepss', hinitializes', hlength⟩ := h₂.composed.initializes rfl hinitializes
  have hstatic : m.isStatic = true := by
    rw [Member.isStatic, hinitializes.access]
    rfl
  have hraises := h₂.raises .exit (by simp [InjectionMode.select?])
  obtain ⟨body₁, body', hbody₁, hbody', hsize'⟩ := hraises
  obtain rfl := hbody.unique hbody₁
  refine ⟨⟨stepss ++ stepss', body', List.rel_append hstepss hstepss', ?_, hbody', ?_⟩, hlength⟩
  · rwa [List.flatten_append]
  · rw [hsize', hsize, List.length_append, Nat.add_mul]
    show _ + gs'.length * registrationNeed m.isStatic = _
    rw [hstatic]

/-- What one rule makes of the methods of a class, and of their stacks. -/
theorem stacked_of_inject {injection : RuleInjection} (haligned : d.Aligned)
    (hsize : d.file.pool.entries.size ≤ ConstantPool.maxEntries)
    (h : d.inject g.rule g.matched = .ok (d', injection)) :
    ((∃ m ∈ d.file.methods, d.file.memberName m = .ok g.rule.targetMethod) ∧
      List.Forall₂ (fun t t' =>
        (d.file.memberName t.member = .ok g.rule.targetMethod → d'.Stacked g.rule.targetMethod [g] t t') ∧
        (d.file.memberName t.member ≠ .ok g.rule.targetMethod → t' = t)) d.methods d'.methods) ∨
    ((∀ m ∈ d.file.methods, d.file.memberName m ≠ .ok g.rule.targetMethod) ∧
      g.rule.targetMethod = ClassFile.staticInitializer ∧
      ∃ m, d'.methods = d.methods ++ [⟨m, 0⟩] ∧ d'.Initialized [g] m) := by
  obtain ⟨-, -, -, hbecomes⟩ := inject_ok haligned hsize h
  obtain ⟨_, calls, names, -, -, hnames, hbranch⟩ := exists_of_inject h
  cases hbecomes with
  | declared hdeclared hmethods =>
    refine Or.inl ⟨hdeclared, ?_⟩
    rcases hbranch with ⟨hcount, -⟩ | ⟨-, ts, P, hts, rfl⟩
    · obtain ⟨m, hm, hname⟩ := hdeclared
      exact absurd hname ((count_names_eq_zero_iff hnames).1 hcount m hm)
    · obtain ⟨-, hinjected⟩ := injectMethod_of_injectMethods haligned hnames hts
      rw [methods_withMethods] at hmethods ⊢
      refine List.Forall₂.mp (fun t t' hmethod hinject => ?_) hmethods hinjected
      refine ⟨fun hname => ⟨hmethod.1 hname, fun mode hselect => ?_⟩, hmethod.2⟩
      obtain ⟨P₁, P₂, hinject, hext⟩ := hinject.1 hname
      obtain ⟨mode', hselect', hinject⟩ := exists_of_injectMethod hinject
      obtain rfl : mode = mode' := Option.some.inj (hselect.symm.trans hselect')
      exact (TargetMethod.raises_of_inject hinject).extends hext
  | synthesized m stepss hmissing hname hmethods hstepss hinitializes =>
    refine Or.inr ⟨hmissing, hname, m, hmethods, ?_⟩
    rcases hbranch with ⟨-, hsynthesize⟩ | ⟨hcount, -⟩
    · obtain ⟨-, new, P, hnew, rfl⟩ := exists_of_synthesize hsynthesize
      obtain rfl : new = m := by
        rw [methods_withMethods] at hmethods
        simpa using List.append_cancel_left hmethods
      obtain ⟨_, -, -, -, hbody⟩ := ClassFile.initializer_ok hsize hnew
      exact ⟨stepss, _, hstepss, hinitializes, hbody, rfl⟩
    · exact absurd ((count_names_eq_zero_iff hnames).2 hmissing) hcount

/-! ## One rule after the other -/

/-- Those of some rules that are for a method of a class. -/
def rulesFor (d : ClassDraft) (gs : List GroupRule) (m : Member) : List GroupRule :=
  gs.filter fun g => d.file.memberName m = .ok g.rule.targetMethod

/-- Those of some rules that are for static initializers. -/
def initializerRules (gs : List GroupRule) : List GroupRule :=
  gs.filter fun g => g.rule.targetMethod = ClassFile.staticInitializer

/-- A method that no rule is for stays. The others have the calls of the rules that are for them. -/
def Changes (d₀ d : ClassDraft) (gs : List GroupRule) (t t' : TargetMethod) : Prop :=
  (d₀.rulesFor gs t.member = [] ∧ t' = t) ∨ (d₀.rulesFor gs t.member ≠ [] ∧
    ∃ name, d₀.file.memberName t.member = .ok name ∧ d.Stacked name (d₀.rulesFor gs t.member) t t')

/-- What is new is one static initializer, if there was none and a rule is for it. -/
def Adds (d₀ d : ClassDraft) (gs : List GroupRule) (new : List TargetMethod) : Prop :=
  ((∃ m ∈ d₀.file.methods, d₀.file.memberName m = .ok ClassFile.staticInitializer) ∨ initializerRules gs = []) ∧
    new = [] ∨
  (∀ m ∈ d₀.file.methods, d₀.file.memberName m ≠ .ok ClassFile.staticInitializer) ∧ initializerRules gs ≠ [] ∧
    ∃ m, new = [⟨m, 0⟩] ∧ d.Initialized (initializerRules gs) m

/-- What rules make of a class, if all of them are applied. -/
structure Accounts (d₀ : ClassDraft) (gs : List GroupRule) (d : ClassDraft) : Prop where
  grows : d₀.file.Grows d.file
  aligned : d.Aligned
  unchanged : gs = [] → d = d₀
  resolved : gs ≠ [] → ∀ m ∈ d₀.file.methods, ∃ text, d₀.file.memberName m = .ok text
  methods : ∃ ts new, d.methods = ts ++ new ∧ List.Forall₂ (d₀.Changes d gs) d₀.methods ts ∧ d₀.Adds d gs new

theorem rulesFor_append (d : ClassDraft) (gs : List GroupRule) (g : GroupRule) (m : Member) :
    d.rulesFor (gs ++ [g]) m =
      d.rulesFor gs m ++ if d.file.memberName m = .ok g.rule.targetMethod then [g] else [] := by
  rw [rulesFor, List.filter_append, List.filter_singleton]
  by_cases hname : d.file.memberName m = .ok g.rule.targetMethod <;> simp [rulesFor, hname]

theorem initializerRules_append (gs : List GroupRule) (g : GroupRule) :
    initializerRules (gs ++ [g]) =
      initializerRules gs ++ if g.rule.targetMethod = ClassFile.staticInitializer then [g] else [] := by
  rw [initializerRules, List.filter_append, List.filter_singleton]
  by_cases hname : g.rule.targetMethod = ClassFile.staticInitializer <;> simp [initializerRules, hname]

theorem Changes.sameDeclaration (h : d₀.Changes d gs t t') : t.member.SameDeclaration t'.member := by
  rcases h with ⟨-, rfl⟩ | ⟨-, name, -, hstacked⟩
  · exact ⟨rfl, rfl, rfl⟩
  · exact hstacked.sameDeclaration

/-- A rule that is for a method puts its calls in. -/
theorem Changes.named (hgrows : d₁.file.Grows d₂.file) (hzero : t.entryLength = 0) (h : d₀.Changes d₁ gs t t₁)
    (hname : d₀.file.memberName t.member = .ok g.rule.targetMethod)
    (hstacked : d₂.Stacked g.rule.targetMethod [g] t₁ t₂) : d₀.Changes d₂ (gs ++ [g]) t t₂ := by
  have hrules := d₀.rulesFor_append gs g t.member
  rw [if_pos hname] at hrules
  refine Or.inr ⟨by rw [hrules]; simp, g.rule.targetMethod, hname, ?_⟩
  rw [hrules]
  rcases h with ⟨hnone, rfl⟩ | ⟨-, name, hname', hbefore⟩
  · rwa [hnone]
  · obtain rfl : name = g.rule.targetMethod := Except.ok.inj (hname'.symm.trans hname)
    exact hbefore.trans hgrows hzero hstacked

/-- A rule that is for other methods leaves a method as it is. -/
theorem Changes.other (hgrows : d₁.file.Grows d₂.file) (h : d₀.Changes d₁ gs t t₁)
    (hname : d₀.file.memberName t.member ≠ .ok g.rule.targetMethod) : d₀.Changes d₂ (gs ++ [g]) t t₁ := by
  have hrules := d₀.rulesFor_append gs g t.member
  rw [if_neg hname, List.append_nil] at hrules
  rw [Changes, hrules]
  exact h.imp_right fun ⟨hne, name, hname', hstacked⟩ => ⟨hne, name, hname', hstacked.grows hgrows⟩

/-- A rule for the methods that a class has puts its calls into a new static initializer, too. -/
theorem Adds.declared {new new' : List TargetMethod} (hgrows : d₁.file.Grows d₂.file) (h : d₀.Adds d₁ gs new)
    (hdeclared : new = [] → g.rule.targetMethod = ClassFile.staticInitializer →
      ∃ m ∈ d₀.file.methods, d₀.file.memberName m = .ok ClassFile.staticInitializer)
    (hnew : List.Forall₂ (fun t t' =>
      (d₁.file.memberName t.member = .ok g.rule.targetMethod → d₂.Stacked g.rule.targetMethod [g] t t') ∧
      (d₁.file.memberName t.member ≠ .ok g.rule.targetMethod → t' = t)) new new') : d₀.Adds d₂ (gs ++ [g]) new' := by
  rw [Adds, initializerRules_append]
  rcases h with ⟨hcause, rfl⟩ | ⟨hnone, hrules, m, rfl, hinitialized⟩
  · obtain rfl := List.forall₂_nil_left_iff.1 hnew
    refine Or.inl ⟨?_, rfl⟩
    by_cases htarget : g.rule.targetMethod = ClassFile.staticInitializer
    · exact Or.inl (hdeclared rfl htarget)
    · rwa [if_neg htarget, List.append_nil]
  · obtain ⟨t, _, ⟨hnamed, hother⟩, hnil, rfl⟩ := List.forall₂_cons_left_iff.1 hnew
    obtain rfl := List.forall₂_nil_left_iff.1 hnil
    have hname : d₁.file.memberName m = .ok ClassFile.staticInitializer := by
      obtain ⟨_, _, -, hinitializes, -⟩ := hinitialized
      exact hinitializes.name
    refine Or.inr ⟨hnone, by simp [hrules], t.member, ?_⟩
    by_cases htarget : g.rule.targetMethod = ClassFile.staticInitializer
    · rw [htarget] at hnamed
      obtain ⟨hinitialized', hlength⟩ := hinitialized.trans hgrows (hnamed hname)
      rw [if_pos htarget]
      exact ⟨by rw [← hlength], hinitialized'⟩
    · obtain rfl : t = ⟨m, 0⟩ := hother fun heq => htarget (Except.ok.inj (heq.symm.trans hname))
      rw [if_neg htarget, List.append_nil]
      exact ⟨rfl, hinitialized.grows hgrows⟩

section
variable (h : Accounts d₀ gs d₁) (haligned : d₀.Aligned)
  (hresolved : ∀ m ∈ d₁.file.methods, ∃ text, d₁.file.memberName m = .ok text)
include h haligned hresolved

/-- The names of methods stay. -/
theorem Accounts.memberName_iff (ht : t ∈ d₀.methods) (hchanges : d₀.Changes d₁ gs t t₁) {name : String} :
    d₁.file.memberName t₁.member = .ok name ↔ d₀.file.memberName t.member = .ok name := by
  obtain ⟨text, htext⟩ : ∃ text, d₀.file.memberName t.member = .ok text := by
    have hmem := haligned.mem.2 ⟨t, ht, rfl⟩
    by_cases hgs : gs = []
    · rw [h.unchanged hgs] at hresolved
      exact hresolved _ hmem
    · exact h.resolved hgs _ hmem
  have htext₁ : d₁.file.memberName t₁.member = .ok text :=
    (hchanges.sameDeclaration.memberName d₁.file).trans (h.grows.pool.utf8 htext)
  rw [htext, htext₁]

/-- A method that was there is there, with its name. -/
theorem Accounts.exists_named {m : Member} (hm : m ∈ d₀.file.methods) :
    ∃ m₁ ∈ d₁.file.methods, ∀ name, d₁.file.memberName m₁ = .ok name ↔ d₀.file.memberName m = .ok name := by
  obtain ⟨ts, new, hmethods, hchanges, -⟩ := h.methods
  obtain ⟨t, ht, rfl⟩ := haligned.mem.1 hm
  obtain ⟨t₁, ht₁, hchange⟩ := hchanges.exists_of_mem ht
  refine ⟨t₁.member, h.aligned.mem.2 ⟨t₁, ?_, rfl⟩, fun name => h.memberName_iff haligned hresolved ht hchange⟩
  rw [hmethods]
  exact List.mem_append_left _ ht₁

theorem Accounts.methods_of_declared (hgrows : d₁.file.Grows d₂.file) (hzero : ∀ t ∈ d₀.methods, t.entryLength = 0)
    (hdeclared : ∃ m ∈ d₁.file.methods, d₁.file.memberName m = .ok g.rule.targetMethod)
    (hrule : List.Forall₂ (fun t t' =>
      (d₁.file.memberName t.member = .ok g.rule.targetMethod → d₂.Stacked g.rule.targetMethod [g] t t') ∧
      (d₁.file.memberName t.member ≠ .ok g.rule.targetMethod → t' = t)) d₁.methods d₂.methods) :
    ∃ ts new, d₂.methods = ts ++ new ∧ List.Forall₂ (d₀.Changes d₂ (gs ++ [g])) d₀.methods ts ∧
      d₀.Adds d₂ (gs ++ [g]) new := by
  obtain ⟨ts, new, hmethods, hchanges, hadds⟩ := h.methods
  have hname {t t₁ : TargetMethod} (ht : t ∈ d₀.methods) (hchange : d₀.Changes d₁ gs t t₁) {name : String} :
      d₁.file.memberName t₁.member = .ok name ↔ d₀.file.memberName t.member = .ok name :=
    h.memberName_iff haligned hresolved ht hchange
  rw [hmethods] at hrule
  obtain ⟨ts', new', hmethods₂, hold, hnew⟩ := hrule.of_append_left
  refine ⟨ts', new', hmethods₂, ?_, hadds.declared hgrows (fun hnil htarget => ?_) hnew⟩
  · refine List.forall₂_trans_of (fun t t₁ t₂ ⟨ht, hchange⟩ ⟨hnamed, hother⟩ => ?_) hchanges.with_mem hold
    by_cases heq : d₀.file.memberName t.member = .ok g.rule.targetMethod
    · exact hchange.named hgrows (hzero t ht) heq (hnamed ((hname ht hchange).2 heq))
    · obtain rfl := hother fun heq₁ => heq ((hname ht hchange).1 heq₁)
      exact hchange.other hgrows heq
  · obtain ⟨m, hm, hm'⟩ := hdeclared
    obtain ⟨t₁, ht₁, rfl⟩ := h.aligned.mem.1 hm
    rw [hmethods, hnil, List.append_nil] at ht₁
    obtain ⟨t, ⟨-, ht, hchange⟩⟩ := hchanges.with_mem.flip.exists_of_mem ht₁
    rw [htarget] at hm'
    exact ⟨_, haligned.mem.2 ⟨t, ht, rfl⟩, (hname ht hchange).1 hm'⟩

theorem Accounts.methods_of_synthesized (hgrows : d₁.file.Grows d₂.file)
    (hmissing : ∀ m ∈ d₁.file.methods, d₁.file.memberName m ≠ .ok g.rule.targetMethod)
    (htarget : g.rule.targetMethod = ClassFile.staticInitializer) (hmethods₂ : d₂.methods = d₁.methods ++ [⟨m, 0⟩])
    (hnew : d₂.Initialized [g] m) :
    ∃ ts new, d₂.methods = ts ++ new ∧ List.Forall₂ (d₀.Changes d₂ (gs ++ [g])) d₀.methods ts ∧
      d₀.Adds d₂ (gs ++ [g]) new := by
  obtain ⟨ts, new, hmethods, hchanges, hadds⟩ := h.methods
  have hnone : ∀ m ∈ d₀.file.methods, d₀.file.memberName m ≠ .ok g.rule.targetMethod := by
    intro m hm hm'
    obtain ⟨m₁, hm₁, hiff⟩ := h.exists_named haligned hresolved hm
    exact hmissing m₁ hm₁ ((hiff _).2 hm')
  rcases hadds with ⟨hcause, rfl⟩ | ⟨-, -, m', rfl, _, _, -, hinitializes, -⟩
  · refine ⟨ts, [⟨m, 0⟩], ?_, ?_, Or.inr ⟨?_, ?_, m, rfl, ?_⟩⟩
    · rw [hmethods₂, hmethods, List.append_nil]
    · refine hchanges.with_mem.imp fun t t₁ ⟨ht, hchange⟩ => hchange.other hgrows ?_
      exact hnone _ (haligned.mem.2 ⟨t, ht, rfl⟩)
    · rwa [htarget] at hnone
    · simp [initializerRules_append, htarget]
    · rw [htarget] at hnone
      rcases hcause with ⟨m', hm', heq⟩ | hrules
      · exact absurd heq (hnone m' hm')
      · rwa [initializerRules_append, hrules, if_pos htarget, List.nil_append]
  · have hm' : m' ∈ d₁.file.methods := h.aligned.mem.2 ⟨⟨m', 0⟩, by simp [hmethods], rfl⟩
    refine absurd ?_ (hmissing m' hm')
    rw [htarget]
    exact hinitializes.name

end

/-- One more rule. -/
theorem Accounts.step {injection : RuleInjection} (h : Accounts d₀ gs d₁) (haligned : d₀.Aligned)
    (hsize : d₀.file.pool.entries.size ≤ ConstantPool.maxEntries) (hzero : ∀ t ∈ d₀.methods, t.entryLength = 0)
    (hinject : d₁.inject g.rule g.matched = .ok (d₂, injection)) : Accounts d₀ (gs ++ [g]) d₂ := by
  have hsize₁ := h.grows.pool.size_le hsize
  obtain ⟨hgrows, haligned₂, hresolved, -⟩ := inject_ok h.aligned hsize₁ hinject
  refine ⟨h.grows.trans hgrows, haligned₂, fun hnil => absurd hnil (by simp), fun _ m hm => ?_, ?_⟩
  · obtain ⟨m₁, hm₁, hiff⟩ := h.exists_named haligned hresolved hm
    exact (hresolved m₁ hm₁).imp fun text => (hiff text).1
  · rcases stacked_of_inject h.aligned hsize₁ hinject with ⟨hdeclared, hrule⟩ | ⟨hmissing, htarget, m, hmethods, hnew⟩
    · exact h.methods_of_declared haligned hresolved hgrows hzero hdeclared hrule
    · exact h.methods_of_synthesized haligned hresolved hgrows hmissing htarget hmethods hnew

theorem Accounts.refl (haligned : d.Aligned) : Accounts d [] d where
  grows := .refl _
  aligned := haligned
  unchanged _ := rfl
  resolved hne := absurd rfl hne
  methods := ⟨d.methods, [], (List.append_nil _).symm, List.forall₂_same.2 fun _ _ => Or.inl ⟨rfl, rfl⟩,
    Or.inl ⟨Or.inr rfl, rfl⟩⟩

/-- All rules. Those that fail change nothing. -/
theorem Accounts.injectRules (haligned : d₀.Aligned) (hsize : d₀.file.pool.entries.size ≤ ConstantPool.maxEntries)
    (hzero : ∀ t ∈ d₀.methods, t.entryLength = 0) (h : Accounts d₀ gs d₁) (gs' : List GroupRule) :
    Accounts d₀ (gs ++ d₁.applied gs') (d₁.injectRules gs').1 := by
  induction gs' generalizing d₁ gs with
  | nil =>
    rw [applied, List.append_nil]
    exact h
  | cons g gs' ih =>
    rw [applied, ClassDraft.injectRules]
    cases hinject : d₁.inject g.rule g.matched with
    | ok changed =>
      have hrest := ih (h.step haligned hsize hzero hinject)
      rwa [List.append_assoc] at hrest
    | error error => exact ih h

/-! ## All rules -/

theorem Registers.balances {isStatic : Bool} {steps : List RegistrationStep}
    (hsize : d.file.pool.entries.size ≤ ConstantPool.maxEntries) (h : d.Registers isStatic g steps) :
    d.file.pool.Balances (registrationNeed isStatic) (steps.map RegistrationStep.instruction) := by
  obtain ⟨candidates, calls, hcandidates, hcalls, hsteps⟩ := h
  refine balances_registrationSteps hsteps hsize .refl fun call hcall => ?_
  obtain ⟨className, -, hclass⟩ := (Except.mapM_eq_ok_iff.1 hcalls).flip.exists_of_mem hcall
  exact Rule.isTyped_of_call hcandidates hclass

theorem forall_balances {isStatic : Bool} {stepss : List (List RegistrationStep)}
    (hsize : d.file.pool.entries.size ≤ ConstantPool.maxEntries) (h : List.Forall₂ (d.Registers isStatic) gs stepss) :
    ∀ steps ∈ stepss,
      d.file.pool.Balances (registrationNeed isStatic) (steps.map RegistrationStep.instruction) := by
  intro steps hsteps
  obtain ⟨g, -, hregisters⟩ := h.flip.exists_of_mem hsteps
  exact Registers.balances hsize hregisters

/-- A method with the calls of rules in it. The registrations of each rule leave the stack as they find it, and the method
is accounted for. -/
def Rewritten (d : ClassDraft) (rules : List GroupRule) (t t' : TargetMethod) : Prop :=
  ∃ name mode stepss, d.file.memberName t.member = .ok name ∧
    InjectionMode.select? true t.member.isStatic (name == ClassFile.staticInitializer) = some mode ∧
    List.Forall₂ (d.Registers t.member.isStatic) rules stepss ∧
    (∀ steps ∈ stepss, d.file.pool.Balances (registrationNeed t.member.isStatic)
      (steps.map RegistrationStep.instruction)) ∧
    TargetMethod.Accounted d.file.pool mode (registrationNeed t.member.isStatic) rules.length
      (stepss.flatten.map RegistrationStep.instruction) t t'

/-- A new static initializer with the calls of rules in it. -/
def Synthesized (d : ClassDraft) (rules : List GroupRule) (m : Member) : Prop :=
  ∃ stepss, List.Forall₂ (d.Registers true) rules stepss ∧
    (∀ steps ∈ stepss, d.file.pool.Balances (registrationNeed true) (steps.map RegistrationStep.instruction)) ∧
    m.Accounted d.file.pool rules.length (stepss.flatten.map RegistrationStep.instruction)

theorem Stacked.rewritten (hsize : d.file.pool.entries.size ≤ ConstantPool.maxEntries) (hgs : gs ≠ [])
    (hzero : t.entryLength = 0) (hname : d.file.memberName t.member = .ok name) (h : d.Stacked name gs t t') :
    d.Rewritten gs t t' := by
  obtain ⟨⟨mode, stepss, hselect, hstepss, hinjected⟩, hraises⟩ := h
  have hbalances := forall_balances hsize hstepss
  exact ⟨name, mode, stepss, hname, hselect, hstepss, hbalances,
    hinjected.accounted hzero (hraises mode hselect) (List.length_pos_of_ne_nil hgs) (.flatten hbalances)⟩

theorem Initialized.synthesized (hsize : d.file.pool.entries.size ≤ ConstantPool.maxEntries) (hgs : gs ≠ [])
    (h : d.Initialized gs m) : d.Synthesized gs m := by
  obtain ⟨stepss, body, hstepss, hinitializes, hbody, hmax⟩ := h
  have hbalances := forall_balances hsize hstepss
  exact ⟨stepss, hstepss, hbalances,
    hinitializes.accounted hbody hmax (List.length_pos_of_ne_nil hgs) (.flatten hbalances)⟩

/-- A method that a rule is for would have too large a stack with its calls in front of the returns. -/
def Overflows (d : ClassDraft) (g : GroupRule) : Prop :=
  ∃ t ∈ d.methods, ∃ body, d.file.memberName t.member = .ok g.rule.targetMethod ∧
    InjectionMode.select? true t.member.isStatic (g.rule.targetMethod == ClassFile.staticInitializer) = some .exit ∧
    t.member.HasBody d.file.pool body ∧ 65535 < body.maxStack.toNat + registrationNeed t.member.isStatic

theorem exists_error_of_overflows (haligned : d.Aligned) (hsize : d.file.pool.entries.size ≤ ConstantPool.maxEntries)
    (h : d.Overflows g) : ∃ error, d.inject g.rule g.matched = .error error := by
  obtain ⟨t, ht, body, hname, hselect, hbody, hlarge⟩ := h
  cases hinject : d.inject g.rule g.matched with
  | error error => exact ⟨error, rfl⟩
  | ok changed =>
    exfalso
    obtain ⟨d', injection⟩ := changed
    obtain ⟨hgrows, -, -, -⟩ := inject_ok haligned hsize hinject
    rcases stacked_of_inject haligned hsize hinject with ⟨-, hmethods⟩ | ⟨hmissing, -⟩
    · obtain ⟨t', -, hnamed, -⟩ := hmethods.exists_of_mem ht
      obtain ⟨body₁, body', hbody₁, -, hraised⟩ := (hnamed hname).raises .exit hselect
      obtain rfl := (hbody.extends hgrows.pool).unique hbody₁
      have hlt := body'.maxStack.toNat_lt
      change body'.maxStack.toNat = body.maxStack.toNat + 1 * registrationNeed t.member.isStatic at hraised
      omega
    · exact hmissing t.member (haligned.mem.2 ⟨t, ht, rfl⟩) hname

/-- What rules do to the stacks of the methods of a class. A rule is applied to all methods of its name, or not at all. -/
structure KeepsStacks (d : ClassDraft) (gs : List GroupRule) : Prop where
  methods : ∃ ts new, (d.injectRules gs).1.methods = ts ++ new ∧
    List.Forall₂ (fun t t' => (d.rulesFor (d.applied gs) t.member = [] ∧ t' = t) ∨
      (d.rulesFor (d.applied gs) t.member ≠ [] ∧
        (d.injectRules gs).1.Rewritten (d.rulesFor (d.applied gs) t.member) t t')) d.methods ts ∧
    (((∃ m ∈ d.file.methods, d.file.memberName m = .ok ClassFile.staticInitializer) ∨
        initializerRules (d.applied gs) = []) ∧ new = [] ∨
      (∀ m ∈ d.file.methods, d.file.memberName m ≠ .ok ClassFile.staticInitializer) ∧
        initializerRules (d.applied gs) ≠ [] ∧
        ∃ m, new = [⟨m, 0⟩] ∧ (d.injectRules gs).1.Synthesized (initializerRules (d.applied gs)) m)
  overflow : ∀ before g later, gs = before ++ g :: later → (d.injectRules before).1.Overflows g →
    ∃ error, d.injectRules (before ++ [g]) =
      ((d.injectRules before).1, (d.injectRules before).2 ++ [(g.index, .error error)])

/-- **Operand stacks.** The registrations of any calls for methods that take one object leave the stack as they find it,
need two slots above it in a static method and three in an instance method, and write no local variable. Whatever rules a
class has, the stack of each of its methods, and of a new static initializer, stays within the size that the class then
says, if it stayed within the old one; where this size would be too large for a class file, a rule fails. -/
theorem keepsStacks_of_decode {bytes : List UInt8} {file : ClassFile} (gs : List GroupRule)
    (hfile : ClassFile.decode bytes = .ok file) :
    (∀ context : CallContext, context.LeavesStack) ∧
      (∀ (body : MethodBody) code pool method entryLength calls need, Placed.decodeAll body.code = .ok code →
        65535 < body.maxStack.toNat + UInt16.toNat need →
        body.withCalls pool method .exit entryLength calls need = .error .stackTooLarge) ∧
      (ClassDraft.of file).KeepsStacks gs := by
  have haligned := aligned_of file
  have hsize := ClassFile.size_pool_le hfile
  have hzero : ∀ t ∈ (ClassDraft.of file).methods, t.entryLength = 0 := fun t ht => entryLength_of ht
  have haccounts : Accounts (ClassDraft.of file) ((ClassDraft.of file).applied gs)
      ((ClassDraft.of file).injectRules gs).1 := (Accounts.refl haligned).injectRules haligned hsize hzero gs
  obtain ⟨ts, new, hmethods, hchanges, hadds⟩ := haccounts.methods
  have hsize' := haccounts.grows.pool.size_le hsize
  refine ⟨fun context => context.leavesStack, fun body code pool method entryLength calls need hcode hlarge =>
    MethodBody.withCalls_of_overflow pool method entryLength calls hcode hlarge,
    ⟨ts, new, hmethods, ?_, ?_⟩, ?_⟩
  · refine hchanges.with_mem.imp fun t t' ⟨ht, hchange⟩ => hchange.imp_right ?_
    rintro ⟨hrules, name, hname, hstacked⟩
    exact ⟨hrules, hstacked.rewritten hsize' hrules (hzero t ht) (haccounts.grows.pool.utf8 hname)⟩
  · refine hadds.imp_right ?_
    rintro ⟨hnone, hrules, m, hnew, hinitialized⟩
    exact ⟨hnone, hrules, m, hnew, hinitialized.synthesized hsize' hrules⟩
  · rintro before g later - hoverflows
    obtain ⟨hgrows, haligned'⟩ := injectRules_grows before haligned hsize
    obtain ⟨error, herror⟩ := exists_error_of_overflows haligned' (hgrows.pool.size_le hsize) hoverflows
    refine ⟨error, ?_⟩
    rw [injectRules_append, ClassDraft.injectRules, herror]
    rfl

theorem keepsStacks_of_decode_registry :
    ((ClassDraft.of registryFile).applied registryRules).map (·.index) = [0, 1] ∧
      (∀ context : CallContext, context.LeavesStack) ∧
      (∀ (body : MethodBody) code pool method entryLength calls need, Placed.decodeAll body.code = .ok code →
        65535 < body.maxStack.toNat + UInt16.toNat need →
        body.withCalls pool method .exit entryLength calls need = .error .stackTooLarge) ∧
      (ClassDraft.of registryFile).KeepsStacks registryRules := by
  have hfile : ClassFile.decode registryBytes = .ok registryFile := by decide +kernel
  have happlied : ((ClassDraft.of registryFile).applied registryRules).map (·.index) = [0, 1] := by decide +kernel
  exact ⟨happlied, keepsStacks_of_decode registryRules hfile⟩

end ClassDraft

end Registrar
