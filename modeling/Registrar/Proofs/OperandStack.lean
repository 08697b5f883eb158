import Registrar.Proofs.Registrations

/-!
# The operand stack

* `Instruction.effect?` : what the instructions of registrations take off the operand stack, and what they put on it;
* `Executes` : how high the stack stands while instructions execute. `executes_registrationSteps` : registrations leave
  the stack as they find it, and need no more slots above it than `stackNeed` says;
* `HasHeight` : the heights that the stack can have at an offset of a method;
* `Splice.LeadsBack` : the stack among inserted instructions. `Inlining.leadsBack_of_hasHeight` : at an instruction of
  the old code the stack has a height that it had there, and what is inserted in front of it starts from such a height.
-/

namespace Registrar

open ConstantPool (Extends)

/-! ## Effects -/

/-- What an instruction does to the operand stack: it takes slots off, then puts slots on. -/
structure StackEffect where
  /-- How many slots it takes off. -/
  pops : Nat
  /-- How many slots it puts on. -/
  pushes : Nat
  deriving DecidableEq, Repr

/-- The height of the stack behind an instruction. -/
def StackEffect.after (e : StackEffect) (height : Nat) : Nat := height - e.pops + e.pushes

/-- How many slots a value of the type takes. -/
def FieldType.slots : FieldType → Nat
  | .letter 'V' => 0
  | .letter 'J' => 2
  | .letter 'D' => 2
  | _ => 1

/-- A call takes its arguments off the stack, and `receivers` slots below them, and leaves its result. -/
def MethodDescriptor.callEffect (d : MethodDescriptor) (receivers : Nat) : StackEffect :=
  ⟨receivers + (d.parameters.map FieldType.slots).sum, d.result.slots⟩

/-- What the instructions that registrations consist of do to the stack. The count of an interface call must be that of
its arguments. -/
def SymbolicInstruction.effect? (i : SymbolicInstruction) : Option StackEffect :=
  match i.operand with
  | .none =>
    if i.opcode = Opcode.aload0 then some ⟨0, 1⟩
    else if i.opcode = Opcode.dup then some ⟨1, 2⟩
    else if i.opcode = Opcode.pop then some ⟨1, 0⟩
    else if i.opcode = Opcode.pop2 then some ⟨2, 0⟩
    else none
  | .ofClass _ => some ⟨0, 1⟩
  | .ofMethod method =>
    match MethodDescriptor.parse method.descriptor with
    | .ok d => some (d.callEffect (if i.opcode = Opcode.invokeStatic then 0 else 1))
    | .error _ => none
  | .ofInterfaceMethod method count =>
    match MethodDescriptor.parse method.descriptor with
    | .ok d => if count.toNat = (d.callEffect 1).pops then some (d.callEffect 1) else none
    | .error _ => none

namespace Instruction

/-- What an instruction of a registration does to the stack. -/
def effect? (pool : ConstantPool) (i : Instruction) : Option StackEffect :=
  (i.symbolic? pool).bind SymbolicInstruction.effect?

/-- Whether the instruction writes a local variable: it stores a value there, or adds to the one that is there. -/
def writesLocal : Instruction → Bool
  | .plain opcode operands =>
    stores opcode || (opcode == Opcode.wide && operands.head?.any stores)
  | _ => false
where
  /-- Whether the opcode, or that of a widened instruction, writes a local variable. -/
  stores (opcode : UInt8) : Bool := (0x36 ≤ opcode && opcode ≤ 0x4e) || opcode == Opcode.iinc

end Instruction

/-- What all instructions of a class do to the stack. Those of registrations do what `effect?` says, the others do what
they may, whatever distances they hold. The pool has all constants, so that indices of the class as it was mean the
same. -/
structure StackEffects (pool : ConstantPool) where
  /-- The effect of an instruction. -/
  effect : Instruction → StackEffect
  agrees : ∀ i e, i.effect? pool = some e → effect i = e
  moved : ∀ T old new i i', Instruction.Moved T old new i i' → effect i' = effect i

/-- The other instructions may do nothing. -/
instance (pool : ConstantPool) : Inhabited (StackEffects pool) where
  default :=
    { effect i := (i.effect? pool).getD ⟨0, 0⟩
      agrees i e h := by rw [h, Option.getD_some]
      moved T old new i i' h := by
        cases h <;> rfl }

/-! ## Straight execution -/

/-- From the height `k`, effects lead to the height `k'`. They leave the `low` slots at the bottom alone, and the stack
never stands higher than `high`. -/
def Executes (low high : Nat) : List StackEffect → Nat → Nat → Prop
  | [], k, k' => low ≤ k ∧ k ≤ high ∧ k = k'
  | e :: es, k, k' => low + e.pops ≤ k ∧ k ≤ high ∧ Executes low high es (e.after k) k'

namespace Executes

variable {low high k k' k'' : Nat} {es es' : List StackEffect}

theorem bounds (h : Executes low high es k k') : low ≤ k ∧ k ≤ high := by
  cases es with
  | nil => exact ⟨h.1, h.2.1⟩
  | cons e es => exact ⟨Nat.le_of_add_right_le h.1, h.2.1⟩

theorem append (h : Executes low high es k k') (h' : Executes low high es' k' k'') :
    Executes low high (es ++ es') k k'' := by
  induction es generalizing k with
  | nil =>
    obtain ⟨-, -, rfl⟩ := h
    exact h'
  | cons e es ih => exact ⟨h.1, h.2.1, ih h.2.2⟩

end Executes

/-! ## Registrations -/

/-- How many slots registrations need above what the stack holds. -/
def registrationNeed (isStatic : Bool) : Nat := if isStatic then 2 else 3

theorem CallContext.toNat_stackNeed (context : CallContext) :
    context.stackNeed.toNat = registrationNeed context.isStatic := by
  unfold stackNeed registrationNeed
  cases context.isStatic <;> rfl

/-- The effects of the instructions that register a class by a method with a result of so many slots. -/
def registrationEffects (isStatic : Bool) (slots : Nat) : List StackEffect :=
  (if isStatic then [] else [⟨0, 1⟩]) ++
    [⟨0, 1⟩, ⟨1, 2⟩, ⟨1, 0⟩, ⟨if isStatic then 1 else 2, slots⟩] ++ if slots = 0 then [] else [⟨slots, 0⟩]

theorem executes_registrationEffects (isStatic : Bool) {slots : Nat} (h : slots ≤ 2) (base : Nat) :
    Executes base (base + registrationNeed isStatic) (registrationEffects isStatic slots) base base := by
  unfold registrationEffects registrationNeed
  cases isStatic <;> by_cases hslots : slots = 0 <;> simp [hslots, Executes, StackEffect.after] <;> omega

namespace FieldType

theorem slots_le_two (t : FieldType) : t.slots ≤ 2 := by
  unfold slots
  split <;> omega

theorem map_effect?_discard (t : FieldType) :
    t.discard.map SymbolicInstruction.effect? = (if t.slots = 0 then [] else [⟨t.slots, 0⟩]).map some := by
  unfold discard
  split
  · rfl
  · rfl
  · rfl
  · have hslots : t.slots = 1 := by simp only [slots]
    rw [hslots]
    rfl

end FieldType

/-- What the instructions that register a class do to the stack. -/
theorem CallContext.map_effect?_registration (context : CallContext) {className descriptor parameter : String}
    {d : MethodDescriptor} (hparse : MethodDescriptor.parse descriptor = .ok d)
    (hparameters : d.parameters = [.object parameter]) :
    (context.registration className descriptor d.result).map SymbolicInstruction.effect? =
      (registrationEffects context.isStatic d.result.slots).map some := by
  have hconstruct : MethodDescriptor.parse "()V" = .ok ⟨[], .letter 'V'⟩ := by decide +kernel
  have hcall (receivers : Nat) : d.callEffect receivers = ⟨receivers + 1, d.result.slots⟩ := by
    rw [MethodDescriptor.callEffect, hparameters]
    rfl
  have hinvocation : (context.invocation descriptor).effect? =
      some ⟨if context.isStatic then 1 else 2, d.result.slots⟩ := by
    unfold invocation
    split_ifs
    · simp only [SymbolicInstruction.effect?, hparse, hcall, if_true]
    · simp only [SymbolicInstruction.effect?, hparse, hcall]
      rfl
    · simp only [SymbolicInstruction.effect?, hparse, hcall]
      rfl
  have hreceiver : (if context.isStatic then [] else [(⟨Opcode.aload0, .none⟩ : SymbolicInstruction)]).map
      SymbolicInstruction.effect? = (if context.isStatic then [] else [(⟨0, 1⟩ : StackEffect)]).map some := by
    cases context.isStatic <;> rfl
  have hinit : SymbolicInstruction.effect?
      ⟨Opcode.invokeSpecial, .ofMethod ⟨className, ClassFile.constructor, "()V", false⟩⟩ = some ⟨1, 0⟩ := by
    simp only [SymbolicInstruction.effect?, hconstruct]
    rfl
  simp only [registration, registrationEffects, List.map_append, List.map_cons, List.map_nil, hreceiver, hinvocation,
    hinit, FieldType.map_effect?_discard]
  rfl

/-- The descriptor of a call is one of a method that takes one object, and the call drops what such a method returns. -/
def RegisterCall.IsTyped (call : RegisterCall) : Prop :=
  ∃ signature, RegisterSignature.of? call.descriptor = .ok (some signature) ∧ call.returnSlots = signature.returnSlots

/-- The calls of a rule are for methods of the class. -/
theorem Rule.isTyped_of_call {r : Rule} {c : ClassFile} {candidates : List RegisterCandidate} {className : String}
    {call : RegisterCall} (hcandidates : c.candidates r.registerMethod = .ok candidates)
    (hcall : r.call candidates className = .ok call) : call.IsTyped := by
  obtain ⟨chosen, hchoose, rfl⟩ := call_eq_ok_iff.1 hcall
  obtain ⟨_, -, -, -, -, hsignature⟩ := c.exists_of_candidates hcandidates (mem_of_choose hchoose)
  exact ⟨_, hsignature, rfl⟩

/-- Instructions leave the stack as they find it, use no more than `need` slots above what it holds and write no local
variable. -/
structure ConstantPool.Balances (pool : ConstantPool) (need : Nat) (is : List Instruction) : Prop where
  executes : ∀ (E : StackEffects pool) (base : Nat), Executes base (base + need) (is.map E.effect) base base
  writesLocal : ∀ i ∈ is, i.writesLocal = false

namespace ConstantPool.Balances

variable {pool : ConstantPool} {need : Nat} {is js : List Instruction}

theorem nil : pool.Balances need [] := ⟨fun _ base => ⟨Nat.le_refl _, Nat.le_add_right _ _, rfl⟩, by simp⟩

theorem append (h : pool.Balances need is) (h' : pool.Balances need js) : pool.Balances need (is ++ js) := by
  refine ⟨fun E base => ?_, List.forall_mem_append.2 ⟨h.writesLocal, h'.writesLocal⟩⟩
  rw [List.map_append]
  exact (h.executes E base).append (h'.executes E base)

theorem flatten {stepss : List (List RegistrationStep)}
    (h : ∀ steps ∈ stepss, pool.Balances need (steps.map RegistrationStep.instruction)) :
    pool.Balances need (stepss.flatten.map RegistrationStep.instruction) := by
  induction stepss with
  | nil => exact .nil
  | cons steps stepss ih =>
    rw [List.forall_mem_cons] at h
    rw [List.flatten_cons, List.map_append]
    exact .append h.1 (ih h.2)

end ConstantPool.Balances

theorem RegistrationStep.writesLocal_instruction (s : RegistrationStep) : s.instruction.writesLocal = false := by
  cases s <;> rfl

theorem StackEffects.map_effect {pool : ConstantPool} (E : StackEffects pool) {is : List Instruction}
    {symbols : List SymbolicInstruction} {es : List StackEffect}
    (his : is.map (Instruction.symbolic? pool) = symbols.map some)
    (hes : symbols.map SymbolicInstruction.effect? = es.map some) : is.map E.effect = es := by
  induction is generalizing symbols es with
  | nil =>
    obtain rfl : symbols = [] := by simpa using his.symm
    simpa using hes
  | cons i is ih =>
    obtain ⟨symbol, symbols, rfl⟩ : ∃ symbol rest, symbols = symbol :: rest :=
      List.exists_cons_of_ne_nil (by rintro rfl; cases his)
    obtain ⟨e, es, rfl⟩ : ∃ e rest, es = e :: rest := List.exists_cons_of_ne_nil (by rintro rfl; cases hes)
    obtain ⟨hi, his⟩ := List.cons.inj his
    obtain ⟨he, hes⟩ := List.cons.inj hes
    have heffect : i.effect? pool = some e := by
      rw [Instruction.effect?, hi, Option.bind_some, he]
    rw [List.map_cons, E.agrees i e heffect, ih his hes]

/-- The registrations of typed calls leave the stack as they find it. -/
theorem balances_registrationSteps {context : CallContext} {calls : List RegisterCall} {steps : List RegistrationStep}
    {P P' Q : ConstantPool} (h : registrationSteps context calls P = .ok steps P')
    (hP : P.entries.size ≤ ConstantPool.maxEntries) (hQ : Extends P' Q) (hcalls : ∀ call ∈ calls, call.IsTyped) :
    Q.Balances (registrationNeed context.isStatic) (steps.map RegistrationStep.instruction) := by
  induction calls generalizing P steps with
  | nil =>
    obtain ⟨rfl, -⟩ := EStateM.pure_eq_ok_iff.1 h
    exact .nil
  | cons call calls ih =>
    rw [List.forall_mem_cons] at hcalls
    obtain ⟨⟨signature, hsignature, hslots⟩, hcalls⟩ := hcalls
    obtain ⟨d, hparse, hparameters, hreturn⟩ := RegisterSignature.exists_of_of? hsignature
    obtain ⟨operands, P₁, hoperands, h⟩ := EStateM.bind_eq_ok_iff.1 h
    obtain ⟨rest, P₂, hrest, h⟩ := EStateM.bind_eq_ok_iff.1 h
    obtain ⟨rfl, rfl⟩ := EStateM.pure_eq_ok_iff.1 h
    have hext := (call.stable_operands context _ _ _ hoperands).1
    have hext' := (registrationSteps_stable _ _ _ _ _ hrest).1
    have hsymbols := call.symbolic?_steps hoperands hP (hext'.trans hQ) (hslots.trans hreturn)
    rw [List.map_append]
    refine .append ⟨fun E base => ?_, ?_⟩ (ih hrest (hext.size_le hP) hcalls)
    · rw [E.map_effect (by rwa [List.map_map]) (context.map_effect?_registration hparse hparameters)]
      exact executes_registrationEffects context.isStatic d.result.slots_le_two base
    · rw [List.forall_mem_map]
      exact fun s _ => s.writesLocal_instruction

/-- The code of typed calls leaves the stack as it finds it, in every pool that has their constants. -/
def CallContext.LeavesStack (context : CallContext) : Prop :=
  ∀ (calls : List RegisterCall) (bytes : List UInt8) (P P' Q : ConstantPool),
    P.entries.size ≤ ConstantPool.maxEntries → Registrar.registration context calls P = .ok bytes P' → Extends P' Q →
      (∀ call ∈ calls, call.IsTyped) →
      ∃ is, Placed.decodeAll bytes = .ok (Placed.layOut 0 is) ∧ Q.Balances context.stackNeed.toNat is

theorem CallContext.leavesStack (context : CallContext) : context.LeavesStack := by
  intro calls bytes P P' Q hP hbytes hQ hcalls
  obtain ⟨steps, hsteps, rfl⟩ := registration_eq_ok_iff.1 hbytes
  refine ⟨steps.map RegistrationStep.instruction, ?_, ?_⟩
  · have htiles := Tiles.layOut_append (forall_isStraight steps) (.nil (0 + _))
    rw [List.append_nil, List.append_nil] at htiles
    exact Placed.decodeAll_eq_ok_iff.2 htiles
  · rw [context.toNat_stackNeed]
    exact balances_registrationSteps hsteps hP hQ hcalls

/-! ## The heights of a method -/

/-- Control goes on, and the stack has another height. A handler starts with the exception alone. -/
inductive StackStep (effect : Instruction → StackEffect) (code : List Placed) (handlers : List Handler) :
    Nat × Nat → Nat × Nat → Prop
  | advance {p : Placed} {u height : Nat} : p ∈ code → (effect p.instruction).pops ≤ height →
      Step code [] p.offset u →
      StackStep effect code handlers (p.offset, height) (u, (effect p.instruction).after height)
  | raise {p : Placed} {h : Handler} {height : Nat} : p ∈ code → h ∈ handlers → h.start.toNat ≤ p.offset →
      p.offset < h.stop.toNat → StackStep effect code handlers (p.offset, height) (h.target.toNat, 1)

/-- The stack can have the height at the offset, if a method starts with an empty one. -/
def HasHeight (effect : Instruction → StackEffect) (code : List Placed) (handlers : List Handler) (u height : Nat) :
    Prop := Relation.ReflTransGen (StackStep effect code handlers) (0, 0) (u, height)

/-- The stack never stands higher than `maxStack`. -/
def StaysWithin (effect : Instruction → StackEffect) (code : List Placed) (handlers : List Handler) (maxStack : Nat) :
    Prop := ∀ u height, HasHeight effect code handlers u height → height ≤ maxStack

/-- Control is in front of an instruction, or in front of the rest of what is inserted there. This rest leads to a height
that the stack can have at the instruction in the old code, with `need` slots above it. If what points at the
instruction does not point there, then the stack was empty. -/
def Splice.LeadsBack (effect : Instruction → StackEffect) (need : Nat) (inner : Splice → List Instruction)
    (old : Nat → Nat → Prop) (s : Splice) (u height : Nat) : Prop :=
  ∃ before rest base, inner s = before ++ rest ∧ u = s.start + (Instruction.straightBytes before).length ∧
    Executes base (base + need) (rest.map effect) height base ∧ old s.old.offset base ∧ (u < s.target → base = 0)

theorem Placed.eq_of_mem_layOut {is : List Instruction} (his : ∀ i ∈ is, i.IsStraight) {offset : Nat} {q r : Placed}
    (hq : q ∈ Placed.layOut offset is) (hr : r ∈ Placed.layOut offset is) (h : q.offset = r.offset) : q = r := by
  induction is generalizing offset with
  | nil => cases hq
  | cons i is ih =>
    have hpos := Instruction.size_pos offset i
    have his' := (List.forall_mem_cons.1 his).2
    rcases List.mem_cons.1 hq with rfl | hq <;> rcases List.mem_cons.1 hr with rfl | hr
    · rfl
    · have := (Placed.layOut_bounds his' hr).1
      change offset = r.offset at h
      omega
    · have := (Placed.layOut_bounds his' hq).1
      change q.offset = offset at h
      omega
    · exact ih his' hq hr

/-- The instruction at the end of some straight code is the first one of the rest. -/
theorem Placed.eq_cons_of_mem_layOut {before rest : List Instruction} {offset : Nat} {q : Placed}
    (hstraight : ∀ i ∈ before ++ rest, i.IsStraight) (hq : q ∈ Placed.layOut offset (before ++ rest))
    (hoffset : q.offset = offset + (Instruction.straightBytes before).length) :
    ∃ rest', rest = q.instruction :: rest' ∧
      q.next = offset + (Instruction.straightBytes (before ++ [q.instruction])).length := by
  induction before generalizing offset with
  | nil =>
    cases rest with
    | nil => cases hq
    | cons i rest =>
      have hi := hstraight i List.mem_cons_self
      rcases List.mem_cons.1 hq with rfl | hq
      · exact ⟨rest, rfl, by rw [List.nil_append, hi.length_cons offset]; rfl⟩
      · have hlow := (Placed.layOut_bounds (List.forall_mem_cons.1 hstraight).2 hq).1
        have hpos := Instruction.size_pos offset i
        rw [Instruction.straightBytes, List.flatMap_nil, List.length_nil] at hoffset
        omega
  | cons b before ih =>
    have hb := hstraight b List.mem_cons_self
    have hpos := Instruction.size_pos offset b
    rw [hb.length_cons offset] at hoffset
    rcases List.mem_cons.1 hq with rfl | hq
    · change offset = _ at hoffset
      omega
    · obtain ⟨rest', hrest, hnext⟩ := ih (List.forall_mem_cons.1 hstraight).2 hq (by omega)
      refine ⟨rest', hrest, ?_⟩
      rw [List.cons_append, hb.length_cons offset, hnext]
      omega

namespace Inlining

variable {insertions : List Insertion} {e e' : Nat} {ss : List Splice} {inner : Splice → List Instruction}
  {handlers handlers' : List Handler} (h : Inlining insertions e e' ss inner handlers handlers')
include h

/-- What stands between the ends of a splice belongs to it. -/
theorem mem_of_between {q : Placed} (hq : q ∈ Splice.newCode ss inner) {s : Splice} (hs : s ∈ ss)
    (hlow : s.start ≤ q.offset) (hhigh : q.offset < s.stop) :
    q ∈ Placed.layOut s.start (inner s) ∨ q = ⟨s.position, s.moved⟩ := by
  obtain ⟨t, ht, hq⟩ := Splice.exists_of_mem_newCode hq
  have hstop := t.position_lt_stop
  have hstart : t.start ≤ t.position := Nat.le_add_right _ _
  have hbounds : t.start ≤ q.offset ∧ q.offset < t.stop := by
    rcases hq with hq | rfl
    · have := h.layOut_bounds ht hq
      omega
    · exact ⟨hstart, hstop⟩
  obtain rfl := h.chain.eq_of_between hs ht hlow hhigh hbounds.1 hbounds.2
  exact hq

/-- No two instructions of the new code stand at one offset. -/
theorem eq_of_offset {p q : Placed} (hp : p ∈ Splice.newCode ss inner) (hq : q ∈ Splice.newCode ss inner)
    (hoffset : p.offset = q.offset) : p = q := by
  obtain ⟨s, hs, hq⟩ := Splice.exists_of_mem_newCode hq
  have hstop := s.position_lt_stop
  have hstart : s.start ≤ s.position := Nat.le_add_right _ _
  rcases hq with hq | rfl
  · have hbounds := h.layOut_bounds hs hq
    rcases h.mem_of_between hp hs (by omega) (by omega) with hp | rfl
    · exact Placed.eq_of_mem_layOut (h.straight s hs) hp hq hoffset
    · change s.position = q.offset at hoffset
      omega
  · change p.offset = s.position at hoffset
    rcases h.mem_of_between hp hs (by omega) (by omega) with hp | rfl
    · have := h.layOut_bounds hs hp
      omega
    · rfl

variable {effect : Instruction → StackEffect} {need : Nat}

/-- What points at an instruction leads to it, through what is inserted in front of it or without that. -/
theorem leadsBack_of_target {old : Nat → Nat → Prop}
    (hexecutes : ∀ s ∈ ss, ∀ base, Executes base (base + need) ((inner s).map effect) base base) {o u height : Nat}
    (htarget : (Splice.relocation ss e e').target o u) (hold : old o height) :
    (u = e' ∧ old e height) ∨ ∃ s ∈ ss, s.LeadsBack effect need inner old u height := by
  rcases htarget with ⟨rfl, rfl⟩ | ⟨s, hs, rfl, rfl⟩
  · exact Or.inl ⟨rfl, hold⟩
  · refine Or.inr ⟨s, hs, ?_⟩
    by_cases hcaptures : s.captures = true
    · have htarget : s.target = s.start := if_pos hcaptures
      exact ⟨[], inner s, height, rfl, htarget, hexecutes s hs height, hold, fun hlt => absurd hlt (Nat.lt_irrefl _)⟩
    · have htarget : s.target = s.position := if_neg hcaptures
      refine ⟨inner s, [], height, (List.append_nil _).symm, ?_, ⟨Nat.le_refl _, Nat.le_add_right _ _, rfl⟩, hold,
        fun hlt => absurd hlt (Nat.lt_irrefl _)⟩
      rw [htarget, Splice.position, h.inserted s hs]

/-- An instruction that control comes to among inserted ones is the next one of these. The height behind it leads back,
too. -/
theorem exists_rest {old : Nat → Nat → Prop} {s : Splice} (hs : s ∈ ss) {q : Placed}
    (hq : q ∈ Placed.layOut s.start (inner s)) {height : Nat}
    (hleads : s.LeadsBack effect need inner old q.offset height) :
    ∃ base, old s.old.offset base ∧ (q.offset < s.target → base = 0) ∧ base + (effect q.instruction).pops ≤ height ∧
      height ≤ base + need ∧ (effect q.instruction).after height ≤ base + need ∧
      s.LeadsBack effect need inner old q.next ((effect q.instruction).after height) := by
  obtain ⟨before, rest, base, hinner, hoffset, hrest, hbase, hempty⟩ := hleads
  have hlt := (h.layOut_bounds hs hq).2.1
  have hstraight := h.straight s hs
  rw [hinner] at hq hstraight
  obtain ⟨rest', rfl, hnext⟩ := Placed.eq_cons_of_mem_layOut hstraight hq hoffset
  obtain ⟨hpops, hheight, hrest⟩ := hrest
  refine ⟨base, hbase, hempty, hpops, hheight, hrest.bounds.2, before ++ [q.instruction], rest', base, ?_, hnext, hrest,
    hbase, fun hbelow => hempty (by omega)⟩
  rw [hinner, List.append_assoc]
  rfl

/-- At an instruction of the old code the stack has a height that it had there. -/
theorem old_of_leadsBack {old : Nat → Nat → Prop} {s : Splice} (hs : s ∈ ss) {height : Nat}
    (hleads : s.LeadsBack effect need inner old s.position height) : old s.old.offset height := by
  obtain ⟨before, rest, base, hinner, hoffset, hrest, hbase, -⟩ := hleads
  have hrestnil : rest = [] := by
    by_contra hne
    obtain ⟨i, rest, rfl⟩ := List.exists_cons_of_ne_nil hne
    have hi := h.straight s hs i (by rw [hinner]; simp)
    have hpos := Instruction.size_pos 0 i
    rw [Splice.position, h.inserted s hs, hinner, Instruction.straightBytes_append, List.length_append,
      hi.length_cons 0] at hoffset
    omega
  subst hrestnil
  obtain ⟨-, -, rfl⟩ := hrest
  exact hbase

theorem bounds_of_leadsBack {old : Nat → Nat → Prop} {s : Splice} (hs : s ∈ ss) {u height : Nat}
    (hleads : s.LeadsBack effect need inner old u height) : s.start ≤ u ∧ u ≤ s.position := by
  obtain ⟨before, rest, -, hinner, rfl, -⟩ := hleads
  rw [Splice.position, h.inserted s hs, hinner, Instruction.straightBytes_append, List.length_append]
  omega

/-- A step from an offset in front of an instruction, or from that of an instruction, leads to another such offset. -/
theorem leadsBack_step
    (hmoved : ∀ T old new i i', Instruction.Moved T old new i i' → effect i' = effect i)
    (hexecutes : ∀ s ∈ ss, ∀ base, Executes base (base + need) ((inner s).map effect) base base) {s : Splice}
    (hs : s ∈ ss) {u u' height height' : Nat}
    (hleads : s.LeadsBack effect need inner (HasHeight effect (ss.map (·.old)) handlers) u height)
    (hstep : StackStep effect (Splice.newCode ss inner) handlers' (u, height) (u', height')) :
    (u' = e' ∧ HasHeight effect (ss.map (·.old)) handlers e height') ∨
      ∃ t ∈ ss, t.LeadsBack effect need inner (HasHeight effect (ss.map (·.old)) handlers) u' height' := by
  have hstop := s.position_lt_stop
  have hold : s.old ∈ ss.map (·.old) := List.mem_map_of_mem hs
  obtain ⟨hlow, hhigh⟩ := h.bounds_of_leadsBack hs hleads
  cases hstep with
  | @advance p _ _ hp hpops hnext =>
    obtain ⟨t, ht, ⟨hposition, o, hstep, htarget⟩ | ⟨q, hq, hoffset, rfl⟩⟩ := h.advance_cases hnext
    · have htstart : t.start ≤ t.position := Nat.le_add_right _ _
      have htstop := t.position_lt_stop
      obtain rfl := h.chain.eq_of_between hs ht hlow (by omega) (by omega) (by omega)
      rw [hposition] at hleads
      have hp' : p = ⟨s.position, s.moved⟩ := h.eq_of_offset hp (Splice.mem_newCode_moved hs) hposition
      have heffect : effect p.instruction = effect s.old.instruction := by
        rw [hp']
        exact hmoved _ _ _ _ _ (h.moved s hs)
      rw [heffect] at hpops ⊢
      exact h.leadsBack_of_target hexecutes htarget
        ((h.old_of_leadsBack hs hleads).tail (.advance hold hpops hstep))
    · obtain ⟨htlow, htlt, hthigh, -⟩ := h.layOut_bounds ht hq
      have htstop := t.position_lt_stop
      obtain rfl := h.chain.eq_of_between hs ht hlow (by omega) (by omega) (by omega)
      have hp' : p = q := h.eq_of_offset hp (Splice.mem_newCode_layOut hs hq) hoffset.symm
      rw [hp'] at hleads ⊢
      obtain ⟨_, -, -, -, -, -, hleads'⟩ := h.exists_rest hs hq hleads
      exact Or.inr ⟨s, hs, hleads'⟩
  | @raise p g' _ hp hg' hstart hstop' =>
    obtain ⟨t, ht, ⟨htlow, hu⟩, g, hg, hgstart, hgstop, htarget⟩ := h.raise_cases hp hg' hstart hstop'
    have htbounds : t.start ≤ p.offset ∧ p.offset < t.stop := by
      have := t.position_lt_stop
      have := t.start_le_target
      rcases hu with hu | ⟨r, hr, hu⟩
      · omega
      · have := h.layOut_bounds ht hr
        omega
    obtain rfl := h.chain.eq_of_between hs ht hlow (by omega) htbounds.1 htbounds.2
    obtain ⟨_, _, base, -, -, -, hbase, -⟩ := hleads
    exact h.leadsBack_of_target hexecutes htarget (hbase.tail (.raise hold hg hgstart hgstop))

theorem offset_lt_of_mem {q : Placed} (hq : q ∈ Splice.newCode ss inner) : q.offset < e' := by
  obtain ⟨s, hs, hq | rfl⟩ := Splice.exists_of_mem_newCode hq
  · have := h.layOut_bounds hs hq
    have := h.chain.position_lt hs
    omega
  · exact h.chain.position_lt hs

section
variable (hmoved : ∀ T old new i i', Instruction.Moved T old new i i' → effect i' = effect i)
  (hexecutes : ∀ s ∈ ss, ∀ base, Executes base (base + need) ((inner s).map effect) base base)
include hmoved hexecutes

/-- Wherever control comes to, the stack leads back to a height that it could have in the old code. -/
theorem leadsBack_of_hasHeight {u height : Nat}
    (hheight : HasHeight effect (Splice.newCode ss inner) handlers' u height) :
    (u = e' ∧ HasHeight effect (ss.map (·.old)) handlers e height) ∨
      ∃ s ∈ ss, s.LeadsBack effect need inner (HasHeight effect (ss.map (·.old)) handlers) u height := by
  unfold HasHeight at hheight
  generalize hstate : (u, height) = state at hheight
  induction hheight generalizing u height with
  | refl =>
    cases hstate
    rcases h.chain.first with ⟨-, rfl, rfl⟩ | ⟨s, hs, hoffset, hstart⟩
    · exact Or.inl ⟨rfl, .refl⟩
    · refine Or.inr ⟨s, hs, [], inner s, 0, rfl, hstart.symm, hexecutes s hs 0, ?_, fun _ => rfl⟩
      rw [hoffset]
      exact .refl
  | @tail state _ _ hstep ih =>
    subst hstate
    obtain ⟨v, k⟩ := state
    rcases ih rfl with ⟨rfl, -⟩ | ⟨s, hs, hleads⟩
    · cases hstep with
      | advance hp => exact absurd (h.offset_lt_of_mem hp) (Nat.lt_irrefl _)
      | raise hp => exact absurd (h.offset_lt_of_mem hp) (Nat.lt_irrefl _)
    · exact h.leadsBack_step hmoved hexecutes hs hleads hstep

/-- An inserted instruction finds on the stack what it takes off, above a height that the stack could have at the
instruction behind. -/
theorem exists_base {s : Splice} (hs : s ∈ ss) {q : Placed} (hq : q ∈ Placed.layOut s.start (inner s)) {height : Nat}
    (hheight : HasHeight effect (Splice.newCode ss inner) handlers' q.offset height) :
    ∃ base, HasHeight effect (ss.map (·.old)) handlers s.old.offset base ∧ (q.offset < s.target → base = 0) ∧
      base + (effect q.instruction).pops ≤ height ∧ height ≤ base + need ∧
      (effect q.instruction).after height ≤ base + need := by
  obtain ⟨hlow, hlt, hhigh, -⟩ := h.layOut_bounds hs hq
  have hend := h.chain.position_lt hs
  rcases h.leadsBack_of_hasHeight hmoved hexecutes hheight with ⟨heq, -⟩ | ⟨t, ht, hleads⟩
  · omega
  · obtain ⟨htlow, hthigh⟩ := h.bounds_of_leadsBack ht hleads
    have hstop := s.position_lt_stop
    have htstop := t.position_lt_stop
    obtain rfl := h.chain.eq_of_between hs ht hlow (by omega) htlow (by omega)
    obtain ⟨base, hbase, hempty, hpops, hheight, hafter, -⟩ := h.exists_rest hs hq hleads
    exact ⟨base, hbase, hempty, hpops, hheight, hafter⟩

/-- The stack stays within its new size if there is room for what is inserted: above all that the old code puts on it, or
above the empty stack, where control only comes to it from the start. -/
theorem staysWithin {maxStack maxStack' : Nat} (hold : StaysWithin effect (ss.map (·.old)) handlers maxStack)
    (hle : maxStack ≤ maxStack')
    (hroom : ∀ s ∈ ss, inner s ≠ [] → maxStack + need ≤ maxStack' ∨ s.target = s.position ∧ need ≤ maxStack') :
    StaysWithin effect (Splice.newCode ss inner) handlers' maxStack' := by
  intro u height hheight
  rcases h.leadsBack_of_hasHeight hmoved hexecutes hheight with ⟨-, hend⟩ | ⟨s, hs, hleads⟩
  · exact (hold _ _ hend).trans hle
  · by_cases hposition : u = s.position
    · subst hposition
      exact (hold _ _ (h.old_of_leadsBack hs hleads)).trans hle
    · have hhigh := (h.bounds_of_leadsBack hs hleads).2
      obtain ⟨before, rest, base, hinner, hoffset, hrest, hbase, hempty⟩ := hleads
      have hheight := hrest.bounds.2
      have hne : inner s ≠ [] := by
        intro hnil
        have hbefore : before = [] := (List.append_eq_nil_iff.1 (hinner.symm.trans hnil)).1
        have hinserted := h.inserted s hs
        rw [hnil] at hinserted
        rw [hbefore] at hoffset
        rw [Splice.position, hinserted] at hposition
        exact hposition hoffset
      rcases hroom s hs hne with hroom | ⟨htarget, hroom⟩
      · have := hold _ _ hbase
        omega
      · have := hempty (by omega)
        omega

end

end Inlining

end Registrar
