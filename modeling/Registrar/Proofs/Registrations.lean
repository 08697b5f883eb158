import Registrar.Proofs.RuleOrder

/-!
# What a rule registers

* `ConstantPool.methodReference?` : the method that an index refers to, by names;
* `Instruction.symbolic?` : an instruction, its operand resolved through a pool;
* `CallContext.registration` : the instructions that register one class. `registrationSteps_symbolic` : the steps of
  calls are these, in the pool that they leave and in every larger one;
* `ClassFile.exists_of_candidates`, `Rule.mem_of_choose` : where the descriptor of a call comes from;
* `MethodBody.decodeAll_of_insert` : the code that steps were put into decodes to what was there and the steps;
* `ClassDraft.carries_of_inject` : a rule puts the registrations of its classes into a class, and nothing else.
-/

namespace Registrar

open ConstantPool (Extends)

/-! ## Symbolic instructions -/

/-- A method that a class refers to. -/
structure MethodReference where
  /-- The class or interface that declares the method. -/
  owner : String
  /-- The name. -/
  name : String
  /-- The descriptor. -/
  descriptor : String
  /-- Whether it is referred to as a method of an interface. -/
  isInterface : Bool
  deriving DecidableEq, Repr

namespace ConstantPool

/-- The name and the descriptor at an index. -/
def nameAndType? (pool : ConstantPool) (index : UInt16) : Option (String × String) :=
  match pool.get index with
  | .ok (.nameAndType name descriptor) =>
    match pool.utf8 name, pool.utf8 descriptor with
    | .ok name, .ok descriptor => some (name, descriptor)
    | _, _ => none
  | _ => none

/-- The method with a class and a name and type at two indices. -/
def referenceOf? (pool : ConstantPool) (owner member : UInt16) (isInterface : Bool) : Option MethodReference :=
  match pool.className owner, pool.nameAndType? member with
  | .ok owner, some (name, descriptor) => some ⟨owner, name, descriptor, isInterface⟩
  | _, _ => none

/-- The method at an index. -/
def methodReference? (pool : ConstantPool) (index : UInt16) : Option MethodReference :=
  match pool.get index with
  | .ok (.methodRef owner member) => pool.referenceOf? owner member false
  | .ok (.interfaceMethodRef owner member) => pool.referenceOf? owner member true
  | _ => none

end ConstantPool

/-- What the operand of an instruction refers to. -/
inductive Operand where
  /-- The instruction has no operand. -/
  | none
  /-- A class. -/
  | ofClass (name : String)
  /-- A method. -/
  | ofMethod (method : MethodReference)
  /-- A method of an interface, with the number of slots that its arguments take. -/
  | ofInterfaceMethod (method : MethodReference) (count : UInt8)
  deriving DecidableEq, Repr

/-- An instruction with names for an operand. -/
structure SymbolicInstruction where
  /-- The opcode. -/
  opcode : UInt8
  /-- The operand. -/
  operand : Operand
  deriving DecidableEq, Repr

/-- The instruction with its operand resolved, if it has none or makes an object or calls a method. -/
def Instruction.symbolic? (pool : ConstantPool) : Instruction → Option SymbolicInstruction
  | .plain opcode [] => some ⟨opcode, .none⟩
  | .plain opcode [a, b] =>
    let index := UInt16.ofNat (a.toNat * 256 + b.toNat)
    if opcode = Opcode.newObject then
      match pool.className index with
      | .ok name => some ⟨opcode, .ofClass name⟩
      | .error _ => none
    else if opcode = Opcode.invokeSpecial ∨ opcode = Opcode.invokeStatic ∨ opcode = Opcode.invokeVirtual then
      (pool.methodReference? index).map fun method => ⟨opcode, .ofMethod method⟩
    else none
  | .plain opcode [a, b, count, zero] =>
    let index := UInt16.ofNat (a.toNat * 256 + b.toNat)
    if opcode = Opcode.invokeInterface ∧ zero = 0 then
      (pool.methodReference? index).map fun method => ⟨opcode, .ofInterfaceMethod method count⟩
    else none
  | _ => none

/-! ## What registers a class -/

/-- The instructions that drop a result of the type. -/
def FieldType.discard : FieldType → List SymbolicInstruction
  | .letter 'V' => []
  | .letter 'J' => [⟨Opcode.pop2, .none⟩]
  | .letter 'D' => [⟨Opcode.pop2, .none⟩]
  | _ => [⟨Opcode.pop, .none⟩]

namespace CallContext

/-- The call of the register method with a descriptor. -/
def invocation (context : CallContext) (descriptor : String) : SymbolicInstruction :=
  let method : MethodReference := ⟨context.owner, context.method, descriptor, context.isInterface⟩
  if context.isStatic then ⟨Opcode.invokeStatic, .ofMethod method⟩
  else if context.isInterface then ⟨Opcode.invokeInterface, .ofInterfaceMethod method 2⟩
  else ⟨Opcode.invokeVirtual, .ofMethod method⟩

/-- The instructions that make an object of a class, pass it to the register method with a descriptor, and drop the
result. -/
def registration (context : CallContext) (className descriptor : String) (result : FieldType) :
    List SymbolicInstruction :=
  (if context.isStatic then [] else [⟨Opcode.aload0, .none⟩]) ++
    [⟨Opcode.newObject, .ofClass className⟩, ⟨Opcode.dup, .none⟩,
      ⟨Opcode.invokeSpecial, .ofMethod ⟨className, ClassFile.constructor, "()V", false⟩⟩,
      context.invocation descriptor] ++ result.discard

end CallContext

/-- The instructions register a class by the method that is chosen for it. -/
def Rule.Registration (r : Rule) (candidates : List RegisterCandidate) (context : CallContext) (className : String)
    (is : List SymbolicInstruction) : Prop :=
  ∃ chosen descriptor, r.choose className candidates = .ok chosen ∧
    MethodDescriptor.parse chosen.descriptor = .ok descriptor ∧
    is = context.registration className chosen.descriptor descriptor.result

/-- The instructions, resolved through a pool, register the classes of a set, in ascending order, each once. -/
def Rule.RegistersAll (r : Rule) (candidates : List RegisterCandidate) (context : CallContext) (matched : NameSet)
    (pool : ConstantPool) (is : List Instruction) : Prop :=
  ∃ parts, List.Forall₂ (r.Registration candidates context) matched.toList parts ∧
    is.map (Instruction.symbolic? pool) = parts.flatten.map some

/-! ## Constants -/

namespace ConstantPool

variable {P P' Q : ConstantPool} {i : UInt16}

theorem Extends.nameAndType? (h : Extends P Q) {member : String × String} (hi : P.nameAndType? i = some member) :
    Q.nameAndType? i = some member := by
  unfold ConstantPool.nameAndType? at hi ⊢
  split at hi
  · next hget =>
    rw [h.get hget]
    split at hi
    · next hname hdescriptor =>
      simp only [h.utf8 hname, h.utf8 hdescriptor]
      exact hi
    · cases hi
  · cases hi

theorem Extends.referenceOf? (h : Extends P Q) {owner member : UInt16} {isInterface : Bool} {method : MethodReference}
    (hm : P.referenceOf? owner member isInterface = some method) :
    Q.referenceOf? owner member isInterface = some method := by
  unfold ConstantPool.referenceOf? at hm ⊢
  split at hm
  · next howner hmember =>
    simp only [h.className howner, h.nameAndType? hmember]
    exact hm
  · cases hm

theorem Extends.methodReference? (h : Extends P Q) {method : MethodReference}
    (hi : P.methodReference? i = some method) : Q.methodReference? i = some method := by
  unfold ConstantPool.methodReference? at hi ⊢
  split at hi
  · next hget =>
    rw [h.get hget]
    exact h.referenceOf? hi
  · next hget =>
    rw [h.get hget]
    exact h.referenceOf? hi
  · cases hi

open Interning

theorem className_of_classIndex {name : String} (h : classIndex name P = .ok i P')
    (hP : P.entries.size ≤ maxEntries) : P'.className i = .ok name := by
  obtain ⟨j, P₁, hj, hi⟩ := EStateM.bind_eq_ok_iff.1 h
  have hext := (stable_utf8Index name _ _ _ hj).1
  have hext' := (stable_indexOf (.classRef _) (fun _ => rfl) _ _ _ hi).1
  have hget := get_of_indexOf hi (hext.size_le hP)
  have hutf8 := hext'.utf8 (utf8_of_utf8Index hj hP)
  unfold className
  rw [hget]
  exact hutf8

theorem nameAndType?_of_nameAndTypeIndex {name descriptor : String}
    (h : nameAndTypeIndex name descriptor P = .ok i P') (hP : P.entries.size ≤ maxEntries) :
    P'.nameAndType? i = some (name, descriptor) := by
  obtain ⟨j, P₁, hj, h⟩ := EStateM.bind_eq_ok_iff.1 h
  obtain ⟨k, P₂, hk, hi⟩ := EStateM.bind_eq_ok_iff.1 h
  have hext₁ := (stable_utf8Index name _ _ _ hj).1
  have hext₂ := (stable_utf8Index descriptor _ _ _ hk).1
  have hext₃ := (stable_indexOf (.nameAndType _ _) (fun _ => rfl) _ _ _ hi).1
  have hsize₁ := hext₁.size_le hP
  have hget := get_of_indexOf hi (hext₂.size_le hsize₁)
  have hname := (hext₂.trans hext₃).utf8 (utf8_of_utf8Index hj hP)
  have hdescriptor := hext₃.utf8 (utf8_of_utf8Index hk hsize₁)
  unfold nameAndType?
  simp only [hget, hname, hdescriptor]

/-- The index of a method refers to the method. -/
theorem methodReference?_of_methodRefIndex {owner name descriptor : String} {isInterface : Bool}
    (h : methodRefIndex owner name descriptor isInterface P = .ok i P') (hP : P.entries.size ≤ maxEntries) :
    P'.methodReference? i = some ⟨owner, name, descriptor, isInterface⟩ := by
  obtain ⟨j, P₁, hj, h⟩ := EStateM.bind_eq_ok_iff.1 h
  obtain ⟨k, P₂, hk, hi⟩ := EStateM.bind_eq_ok_iff.1 h
  have hext₁ := (stable_classIndex owner _ _ _ hj).1
  have hext₂ := (stable_nameAndTypeIndex name descriptor _ _ _ hk).1
  have hsize₁ := hext₁.size_le hP
  have hsize₂ := hext₂.size_le hsize₁
  have howner := className_of_classIndex hj hP
  have hmember := nameAndType?_of_nameAndTypeIndex hk hsize₁
  have hget := get_of_indexOf hi hsize₂
  cases isInterface with
  | false =>
    have hext₃ := (stable_indexOf (.methodRef _ _) (fun _ => rfl) _ _ _ hi).1
    rw [if_neg Bool.false_ne_true] at hget
    simp only [methodReference?, hget, referenceOf?, (hext₂.trans hext₃).className howner, hext₃.nameAndType? hmember]
  | true =>
    have hext₃ := (stable_indexOf (.interfaceMethodRef _ _) (fun _ => rfl) _ _ _ hi).1
    rw [if_pos rfl] at hget
    simp only [methodReference?, hget, referenceOf?, (hext₂.trans hext₃).className howner, hext₃.nameAndType? hmember]

end ConstantPool

/-! ## The steps of calls -/

namespace Instruction

variable {P : ConstantPool} {i : UInt16}

theorem index_bytes16 (v : UInt16) :
    UInt16.ofNat ((UInt8.ofNat (v.toNat / 256)).toNat * 256 + (UInt8.ofNat v.toNat).toNat) = v := by
  have h := Decoder.u16_encode v []
  rw [List.append_nil] at h
  exact congrArg Prod.fst (Except.ok.inj h)

theorem symbolic?_newObject {name : String} (h : P.className i = .ok name) :
    (RegistrationStep.newObject i).instruction.symbolic? P = some ⟨Opcode.newObject, .ofClass name⟩ := by
  simp only [RegistrationStep.instruction, bytes16, symbolic?, index_bytes16, if_true, h]

theorem symbolic?_call {opcode : UInt8} {method : MethodReference}
    (hopcode : opcode = Opcode.invokeSpecial ∨ opcode = Opcode.invokeStatic ∨ opcode = Opcode.invokeVirtual)
    (h : P.methodReference? i = some method) :
    (Instruction.plain opcode (bytes16 i)).symbolic? P = some ⟨opcode, .ofMethod method⟩ := by
  have hne : opcode ≠ Opcode.newObject := by
    rintro rfl
    revert hopcode
    decide
  simp only [bytes16, symbolic?, index_bytes16, if_neg hne, if_pos hopcode, h, Option.map_some]

theorem symbolic?_callInterface {method : MethodReference} (h : P.methodReference? i = some method) :
    (RegistrationStep.callInterface i).instruction.symbolic? P =
      some ⟨Opcode.invokeInterface, .ofInterfaceMethod method 2⟩ := by
  simp only [RegistrationStep.instruction, bytes16, List.cons_append, List.nil_append, symbolic?, index_bytes16,
    and_self, if_true, h, Option.map_some]

end Instruction

theorem RegisterCall.symbolic?_cleanup (P : ConstantPool) (d : MethodDescriptor) :
    (cleanup d.returnSlots).map (fun s => s.instruction.symbolic? P) = d.result.discard.map some := by
  obtain ⟨parameters, result⟩ := d
  unfold FieldType.discard
  dsimp only
  split
  · rfl
  · rfl
  · rfl
  · next hvoid hlong hdouble =>
    have hslots : MethodDescriptor.returnSlots ⟨parameters, result⟩ = 1 := by
      simp only [MethodDescriptor.returnSlots]
    rw [hslots]
    rfl

/-- The steps of a call register its class, in the pool that holds their constants and in every larger one. -/
theorem RegisterCall.symbolic?_steps {context : CallContext} {call : RegisterCall} {operands : CallOperands}
    {P P' Q : ConstantPool} {d : MethodDescriptor} (h : call.operands context P = .ok operands P')
    (hP : P.entries.size ≤ ConstantPool.maxEntries) (hQ : Extends P' Q) (hslots : call.returnSlots = d.returnSlots) :
    (call.steps context operands).map (fun s => s.instruction.symbolic? Q) =
      (context.registration call.className call.descriptor d.result).map some := by
  obtain ⟨owner, P₁, howner, h⟩ := EStateM.bind_eq_ok_iff.1 h
  obtain ⟨constructor, P₂, hconstructor, h⟩ := EStateM.bind_eq_ok_iff.1 h
  obtain ⟨register, P₃, hregister, h⟩ := EStateM.bind_eq_ok_iff.1 h
  obtain ⟨rfl, rfl⟩ := EStateM.pure_eq_ok_iff.1 h
  have hext₁ := (ConstantPool.Interning.stable_classIndex _ _ _ _ howner).1
  have hext₂ := (ConstantPool.Interning.stable_methodRefIndex _ _ _ _ _ _ _ hconstructor).1
  have hext₃ := (ConstantPool.Interning.stable_methodRefIndex _ _ _ _ _ _ _ hregister).1
  have hsize₁ := hext₁.size_le hP
  have hclass := ((hext₂.trans hext₃).trans hQ).className (ConstantPool.className_of_classIndex howner hP)
  have hinit := (hext₃.trans hQ).methodReference? (ConstantPool.methodReference?_of_methodRefIndex hconstructor hsize₁)
  have hmethod := hQ.methodReference?
    (ConstantPool.methodReference?_of_methodRefIndex hregister (hext₂.size_le hsize₁))
  have hinvocation : (invocation context register).instruction.symbolic? Q =
      some (context.invocation call.descriptor) := by
    unfold invocation CallContext.invocation
    split_ifs
    · exact Instruction.symbolic?_call (by decide) hmethod
    · exact Instruction.symbolic?_callInterface hmethod
    · exact Instruction.symbolic?_call (by decide) hmethod
  have hconstruct : (RegistrationStep.construct constructor).instruction.symbolic? Q =
      some ⟨Opcode.invokeSpecial, .ofMethod ⟨call.className, ClassFile.constructor, "()V", false⟩⟩ :=
    Instruction.symbolic?_call (by decide) hinit
  have hreceiver : (if context.isStatic then [] else [RegistrationStep.loadReceiver]).map
      (fun s => s.instruction.symbolic? Q) =
        (if context.isStatic then [] else [(⟨Opcode.aload0, .none⟩ : SymbolicInstruction)]).map some := by
    cases context.isStatic <;> rfl
  simp only [steps, CallContext.registration, List.map_append, List.map_cons, List.map_nil, hslots, symbolic?_cleanup,
    hreceiver, hinvocation, hconstruct, Instruction.symbolic?_newObject hclass]
  rfl

/-- The steps of calls register their classes one after the other. -/
theorem registrationSteps_symbolic {context : CallContext} {calls : List RegisterCall} {steps : List RegistrationStep}
    {P P' Q : ConstantPool} {parts : List (List SymbolicInstruction)}
    (h : registrationSteps context calls P = .ok steps P') (hP : P.entries.size ≤ ConstantPool.maxEntries)
    (hQ : Extends P' Q)
    (hparts : List.Forall₂ (fun (call : RegisterCall) part => ∃ d : MethodDescriptor,
      call.returnSlots = d.returnSlots ∧ part = context.registration call.className call.descriptor d.result)
      calls parts) :
    (steps.map RegistrationStep.instruction).map (Instruction.symbolic? Q) = parts.flatten.map some := by
  induction hparts generalizing P steps with
  | nil =>
    obtain ⟨rfl, -⟩ := EStateM.pure_eq_ok_iff.1 h
    rfl
  | @cons call part calls parts hpart _ ih =>
    obtain ⟨d, hslots, rfl⟩ := hpart
    obtain ⟨operands, P₁, hoperands, h⟩ := EStateM.bind_eq_ok_iff.1 h
    obtain ⟨rest, P₂, hrest, h⟩ := EStateM.bind_eq_ok_iff.1 h
    obtain ⟨rfl, rfl⟩ := EStateM.pure_eq_ok_iff.1 h
    have hext := (call.stable_operands context _ _ _ hoperands).1
    have hext' := (registrationSteps_stable _ _ _ _ _ hrest).1
    have hfirst := call.symbolic?_steps hoperands hP (hext'.trans hQ) hslots
    rw [List.map_append, List.map_append, List.flatten_cons, List.map_append, ← hfirst, ih hrest (hext.size_le hP),
      List.map_map]
    rfl

/-! ## The method that is chosen -/

/-- A method is a candidate if it has the name and its descriptor takes one object. -/
theorem ClassFile.candidate?_eq_some_iff {c : ClassFile} {name : String} {m : Member} {candidate : RegisterCandidate} :
    c.candidate? name m = .ok (some candidate) ↔
      c.memberName m = .ok name ∧ c.memberDescriptor m = .ok candidate.descriptor ∧
        m.isStatic = candidate.isStatic ∧
        RegisterSignature.of? candidate.descriptor = .ok (some ⟨candidate.parameter, candidate.returnSlots⟩) := by
  simp only [candidate?, Except.bind_eq_ok_iff, Except.mapError_eq_ok_iff]
  constructor
  · rintro ⟨text, htext, hcandidate⟩
    split_ifs at hcandidate with hne
    · cases hcandidate
    · simp only [Except.bind_eq_ok_iff, Except.mapError_eq_ok_iff] at hcandidate
      obtain ⟨descriptor, hdescriptor, signature?, hsignature, hcandidate⟩ := hcandidate
      obtain rfl : text = name := by simpa using hne
      cases signature? with
      | none => cases hcandidate
      | some signature =>
        cases hcandidate
        exact ⟨htext, hdescriptor, rfl, hsignature⟩
  · rintro ⟨hname, hdescriptor, hstatic, hsignature⟩
    refine ⟨name, hname, ?_⟩
    rw [if_neg (by simp)]
    simp only [Except.bind_eq_ok_iff, Except.mapError_eq_ok_iff]
    refine ⟨_, hdescriptor, _, hsignature, ?_⟩
    rw [hstatic]
    rfl

/-- A candidate is a method of the class with the name, and its descriptor takes one object. -/
theorem ClassFile.exists_of_candidates {c : ClassFile} {name : String} {candidates : List RegisterCandidate}
    (h : c.candidates name = .ok candidates) {chosen : RegisterCandidate} (hchosen : chosen ∈ candidates) :
    ∃ m ∈ c.methods, c.memberName m = .ok name ∧ c.memberDescriptor m = .ok chosen.descriptor ∧
      m.isStatic = chosen.isStatic ∧
      RegisterSignature.of? chosen.descriptor = .ok (some ⟨chosen.parameter, chosen.returnSlots⟩) := by
  simp only [ClassFile.candidates, Except.map_eq_ok_iff, Except.mapM_eq_ok_iff] at h
  obtain ⟨found, hfound, rfl⟩ := h
  obtain ⟨x, hx, hsome⟩ := List.mem_filterMap.1 hchosen
  obtain rfl : x = some chosen := hsome
  obtain ⟨m, hm, hcandidate⟩ := hfound.flip.exists_of_mem hx
  exact ⟨m, hm, candidate?_eq_some_iff.1 hcandidate⟩

theorem RegisterSignature.exists_of_of? {text : String} {signature : RegisterSignature}
    (h : of? text = .ok (some signature)) :
    ∃ d, MethodDescriptor.parse text = .ok d ∧ d.parameters = [.object signature.parameter] ∧
      signature.returnSlots = d.returnSlots := by
  unfold of? at h
  split at h
  · cases h
  · next d hd =>
    split at h
    · next hparameters =>
      cases h
      exact ⟨d, hd, hparameters, rfl⟩
    · cases h

namespace Rule

variable {r : Rule} {className : String} {candidates : List RegisterCandidate} {chosen : RegisterCandidate}

/-- The candidate that is chosen is the only one with a parameter that is accepted. -/
theorem exists_filter_of_choose (h : r.choose className candidates = .ok chosen) :
    ∃ accepts : String → Bool, candidates.filter (accepts ·.parameter) = [chosen] := by
  unfold choose at h
  split at h
  · next only hfound =>
    cases h
    obtain ⟨accepts, -, hgroup⟩ := List.mem_map.1 (List.mem_of_find?_eq_some hfound)
    exact ⟨accepts, hgroup⟩
  · cases h
  · split at h
    · cases h
      exact ⟨fun _ => true, rfl⟩
    · cases h
    · cases h

theorem mem_of_choose (h : r.choose className candidates = .ok chosen) : chosen ∈ candidates := by
  obtain ⟨accepts, hfilter⟩ := exists_filter_of_choose h
  have hmem : chosen ∈ candidates.filter (accepts ·.parameter) := by
    rw [hfilter]
    exact List.mem_singleton_self _
  exact List.mem_of_mem_filter hmem

theorem call_eq_ok_iff {call : RegisterCall} :
    r.call candidates className = .ok call ↔
      ∃ chosen, r.choose className candidates = .ok chosen ∧ call = chosen.call className := by
  unfold Rule.call
  cases r.choose className candidates <;> simp [eq_comm]

/-- Each call of a rule has a registration of its class. -/
theorem exists_registrations {c : ClassFile} {context : CallContext} {names : List String} {calls : List RegisterCall}
    (hcandidates : c.candidates r.registerMethod = .ok candidates)
    (hcalls : List.Forall₂ (fun name call => r.call candidates name = .ok call) names calls) :
    ∃ parts, List.Forall₂ (r.Registration candidates context) names parts ∧
      List.Forall₂ (fun (call : RegisterCall) part => ∃ d : MethodDescriptor,
        call.returnSlots = d.returnSlots ∧ part = context.registration call.className call.descriptor d.result)
        calls parts := by
  induction hcalls with
  | nil => exact ⟨[], .nil, .nil⟩
  | @cons name call names calls hcall _ ih =>
    obtain ⟨parts, hparts, hparts'⟩ := ih
    obtain ⟨chosen, hchoose, rfl⟩ := call_eq_ok_iff.1 hcall
    obtain ⟨_, -, -, -, -, hsignature⟩ := c.exists_of_candidates hcandidates (mem_of_choose hchoose)
    obtain ⟨d, hparse, -, hslots⟩ := RegisterSignature.exists_of_of? hsignature
    exact ⟨context.registration name chosen.descriptor d.result :: parts,
      .cons ⟨chosen, d, hchoose, hparse, rfl⟩ hparts, .cons ⟨d, hslots, rfl⟩ hparts'⟩

/-- The steps of the calls of a rule register all classes of the rule. -/
theorem registersAll_of_mapM {c : ClassFile} {context : CallContext} {matched : NameSet} {calls : List RegisterCall}
    {steps : List RegistrationStep} {P P' Q : ConstantPool}
    (hcandidates : c.candidates r.registerMethod = .ok candidates)
    (hcalls : matched.toList.mapM (r.call candidates) = .ok calls)
    (hsteps : registrationSteps context calls P = .ok steps P') (hP : P.entries.size ≤ ConstantPool.maxEntries)
    (hQ : Extends P' Q) :
    r.RegistersAll candidates context matched Q (steps.map RegistrationStep.instruction) := by
  obtain ⟨parts, hparts, hparts'⟩ := exists_registrations hcandidates (Except.mapM_eq_ok_iff.1 hcalls)
  exact ⟨parts, hparts, registrationSteps_symbolic hsteps hP hQ hparts'⟩

end Rule

/-! ## Classes -/

/-- The code that straight code was put into consists of what was there, relocated, and of the straight code. -/
theorem MethodBody.decodeAll_of_insert {body moved : MethodBody} {mode : InjectionMode} {entryLength : Nat}
    {code : List Placed} {is : List Instruction} {pool : ConstantPool} (his : ∀ i ∈ is, i.IsStraight)
    (hcode : Placed.decodeAll body.code = .ok code)
    (h : body.insert (mode.insertions entryLength code (Instruction.straightBytes is)) pool = .ok moved) :
    ∃ ss, Spliced (mode.insertions entryLength code (Instruction.straightBytes is)) body.code moved.code ss ∧
      code = ss.map (·.old) ∧
      Placed.decodeAll moved.code = .ok (Splice.newCode ss (Splice.atPoints (mode.points entryLength code) is)) := by
  obtain ⟨ss, hspliced, -⟩ := insert_eq_ok_iff.1 h
  obtain rfl : code = ss.map (·.old) := Except.ok.inj (hcode.symm.trans hspliced.decoded)
  have hpoints := mode.nodup_points entryLength hspliced.chain
  exact ⟨ss, hspliced, rfl, hspliced.decodeAll_eq (fun s hs => (hspliced.inserted_at hpoints hs).1)
    fun s _ => forall_isStraight_atPoints his _ s⟩

/-- The code of `t'` consists of the instructions of `t`, relocated, and of the same instructions in front of those at
the points of the mode. -/
def TargetMethod.Carries (pool : ConstantPool) (mode : InjectionMode) (is : List Instruction) (t t' : TargetMethod) :
    Prop :=
  ∃ body code body' ss, t.member.HasBody pool body ∧ Placed.decodeAll body.code = .ok code ∧
    t'.member.HasBody pool body' ∧ code = ss.map (·.old) ∧
    MethodBody.Spliced (mode.insertions t.entryLength code (Instruction.straightBytes is)) body.code body'.code ss ∧
    Placed.decodeAll body'.code = .ok (Splice.newCode ss (Splice.atPoints (mode.points t.entryLength code) is))

/-- The code of a method consists of instructions and a return. -/
def Member.Holds (pool : ConstantPool) (is : List Instruction) (m : Member) : Prop :=
  ∃ body, m.HasBody pool body ∧ Placed.decodeAll body.code =
    .ok (Placed.layOut 0 is ++ [⟨(Instruction.straightBytes is).length, .plain Opcode.returnVoid []⟩])

theorem TargetMethod.Injected.carries {P : ConstantPool} {mode : InjectionMode} {steps : List RegistrationStep}
    {t t' : TargetMethod} (h : Injected P mode steps t t') :
    Carries P mode (steps.map RegistrationStep.instruction) t t' := by
  obtain ⟨-, ⟨body, code, moved, maxStack, hbody, hcode, hmoved, -, hbody'⟩, -, -⟩ := h
  rw [← RegistrationStep.straightBytes_map] at hmoved
  obtain ⟨ss, hspliced, hold, hdecoded⟩ := MethodBody.decodeAll_of_insert (forall_isStraight steps) hcode hmoved
  exact ⟨body, code, _, ss, hbody, hcode, hbody', hold, hspliced, hdecoded⟩

theorem Member.Initializes.holds {P : ConstantPool} {steps : List RegistrationStep} {m : Member}
    (h : m.Initializes P steps) : m.Holds P (steps.map RegistrationStep.instruction) := by
  obtain ⟨maxStack, hbody⟩ := h.body
  rw [← RegistrationStep.straightBytes_map] at hbody
  exact ⟨_, hbody, MethodBody.decodeAll_straightBytes_return (forall_isStraight steps)⟩

namespace ClassDraft

/-- A class in which all methods that have a name carry instructions that register, those of static methods others than
those of instance methods. If there is no such method, a new static initializer holds them. -/
inductive CarriesAll (name : String) (registers : Bool → List Instruction → Prop) (d d' : ClassDraft) : Prop
  | declared : (∃ m ∈ d.file.methods, d.file.memberName m = .ok name) →
      List.Forall₂ (fun t t' => d.file.memberName t.member = .ok name → ∃ mode is,
        InjectionMode.select? true t.member.isStatic (name == ClassFile.staticInitializer) = some mode ∧
        registers t.member.isStatic is ∧ TargetMethod.Carries d'.file.pool mode is t t') d.methods d'.methods →
      CarriesAll name registers d d'
  | synthesized (m : Member) (is : List Instruction) :
      (∀ m ∈ d.file.methods, d.file.memberName m ≠ .ok name) → name = ClassFile.staticInitializer →
      d'.methods = d.methods ++ [⟨m, 0⟩] → registers true is → m.Holds d'.file.pool is →
      CarriesAll name registers d d'

/-- Rules add to a class. -/
theorem injectRules_grows {d : ClassDraft} (gs : List GroupRule) (haligned : d.Aligned)
    (hsize : d.file.pool.entries.size ≤ ConstantPool.maxEntries) :
    d.file.Grows (d.injectRules gs).1.file ∧ (d.injectRules gs).1.Aligned := by
  induction gs generalizing d with
  | nil => exact ⟨.refl _, haligned⟩
  | cons g gs ih =>
    rw [injectRules]
    split
    · next d' injection hinject =>
      obtain ⟨hgrows, haligned', -, -⟩ := inject_ok haligned hsize hinject
      obtain ⟨hgrows', haligned''⟩ := ih haligned' (hgrows.pool.size_le hsize)
      exact ⟨hgrows.trans hgrows', haligned''⟩
    · exact ih haligned hsize

theorem injectRules_extends {d : ClassDraft} (gs : List GroupRule) (haligned : d.Aligned)
    (hsize : d.file.pool.entries.size ≤ ConstantPool.maxEntries) :
    Extends d.file.pool (d.injectRules gs).1.file.pool ∧ (d.injectRules gs).1.Aligned :=
  (injectRules_grows gs haligned hsize).imp_left (·.pool)

/-- The class whose static initializer registers `B`. -/
def registered : ClassDraft where
  file := { registryFile with pool := registryPool, methods := [registryResult.member, ⟨.static, 4, 5, []⟩] }
  entryLengths := [0, 0]

theorem inject_registry :
    (ClassDraft.of registryFile).inject registryRule (.ofList ["B"]) = .ok (registered, ⟨1, 1⟩) := by
  decide +kernel

/-- **Registrations.** Every method that has the name given by a rule carries, after the rule, one registration of each
class that the rule registers, in ascending order, and nothing else that is new; so does a new static initializer in
front of its return. The operands still refer to the same names when more rules have added constants. -/
theorem carries_of_inject {bytes : List UInt8} {file : ClassFile} {before later : List GroupRule} {d d' : ClassDraft}
    {r : Rule} {matched : NameSet} {injection : RuleInjection} (hfile : ClassFile.decode bytes = .ok file)
    (hd : ((ClassDraft.of file).injectRules before).1 = d) (h : d.inject r matched = .ok (d', injection)) :
    ∃ candidates, d.file.candidates r.registerMethod = .ok candidates ∧
      CarriesAll r.targetMethod (fun isStatic => r.RegistersAll candidates (d.context r isStatic) matched
        (d'.injectRules later).1.file.pool) d d' := by
  have hsize := ClassFile.size_pool_le hfile
  obtain ⟨hext, haligned⟩ := injectRules_extends before (aligned_of file) hsize
  rw [hd] at hext haligned
  have hsize' := hext.size_le hsize
  obtain ⟨hgrows, haligned', -, hbecomes⟩ :=
    inject_ok (g := ⟨0, r, matched⟩) haligned hsize' h
  obtain ⟨candidates, -, -, hcandidates, -⟩ := exists_of_inject h
  obtain ⟨hlater, -⟩ := injectRules_extends later haligned' (hgrows.pool.size_le hsize')
  have hregisters {isStatic : Bool} {stepss : List (List RegistrationStep)}
      (hsteps : List.Forall₂ (d'.Registers isStatic) [⟨0, r, matched⟩] stepss) :
      r.RegistersAll candidates (d.context r isStatic) matched (d'.injectRules later).1.file.pool
        (stepss.flatten.map RegistrationStep.instruction) := by
    obtain ⟨steps, _, ⟨found, calls, hfound, hcalls, hcall⟩, hnil, rfl⟩ := List.forall₂_cons_left_iff.1 hsteps
    obtain rfl := List.forall₂_nil_left_iff.1 hnil
    obtain rfl : candidates = found := Except.ok.inj ((hgrows.candidates hcandidates).symm.trans hfound)
    rw [context_grows hgrows] at hcall
    rw [List.flatten_cons, List.flatten_nil, List.append_nil]
    exact Rule.registersAll_of_mapM hcandidates hcalls hcall (hgrows.pool.size_le hsize') hlater
  refine ⟨candidates, hcandidates, ?_⟩
  cases hbecomes with
  | declared hdeclared hmethods =>
    refine .declared hdeclared (hmethods.imp fun t t' ⟨hnamed, _⟩ hname => ?_)
    obtain ⟨mode, stepss, hselect, hsteps, hinjected⟩ := hnamed hname
    exact ⟨mode, _, hselect, hregisters hsteps, hinjected.carries⟩
  | synthesized m stepss hmissing hname hmethods hsteps hinitializes =>
    exact .synthesized m _ hmissing hname hmethods (hregisters hsteps) hinitializes.holds

theorem carries_of_inject_registry :
    ∃ candidates, (ClassDraft.of registryFile).file.candidates registryRule.registerMethod = .ok candidates ∧
      CarriesAll registryRule.targetMethod (fun isStatic => registryRule.RegistersAll candidates
        ((ClassDraft.of registryFile).context registryRule isStatic) (.ofList ["B"])
        (registered.injectRules [⟨1, registryRule, .ofList ["C"]⟩]).1.file.pool)
        (ClassDraft.of registryFile) registered := by
  have hfile : ClassFile.decode registryBytes = .ok registryFile := by decide +kernel
  have hbefore : ((ClassDraft.of registryFile).injectRules []).1 = ClassDraft.of registryFile := rfl
  exact carries_of_inject hfile hbefore inject_registry

end ClassDraft

end Registrar
