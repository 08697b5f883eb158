import Registrar.Injection.Method
import Registrar.Text.NameSet

/-!
# Putting a rule's calls into a class

`ClassDraft.inject` puts the calls of one rule into every method of a class that has the name given
by the rule, or into a new static initializer. It gives the new class, or a reason; the class before
is untouched.
-/

namespace Registrar

structure ClassDraft where
  file : ClassFile
  /-- How many bytes of registration code stand at the entry of each method. -/
  entryLengths : List Nat
  deriving DecidableEq, Repr

structure RuleInjection where
  registered : Nat
  methods : Nat
  deriving DecidableEq, Repr

namespace ClassDraft

def of (file : ClassFile) : ClassDraft := ⟨file, file.methods.map fun _ => 0⟩

def methods (d : ClassDraft) : List TargetMethod :=
  List.zipWith TargetMethod.mk d.file.methods d.entryLengths

def withMethods (d : ClassDraft) (pool : ConstantPool) (methods : List TargetMethod) : ClassDraft :=
  ⟨{ d.file with pool, methods := methods.map (·.member) }, methods.map (·.entryLength)⟩

def context (d : ClassDraft) (r : Rule) (isStatic : Bool) : CallContext :=
  ⟨r.targetClass, r.registerMethod, d.file.isInterface, isStatic⟩

def targetsInitializer (r : Rule) : Bool := r.targetMethod == ClassFile.staticInitializer

def injectionError (r : Rule) (reason : InjectionError) : TargetError :=
  .injection r.targetClass reason

/-- A method with a rule's calls in it, and the pool with their constants. -/
def injectMethod (d : ClassDraft) (r : Rule) (calls : List RegisterCall) (pool : ConstantPool)
    (t : TargetMethod) : Except TargetError (TargetMethod × ConstantPool) :=
  match InjectionMode.select? true t.member.isStatic (targetsInitializer r) with
  | none => .ok (t, pool)
  | some mode => do
    r.checkStaticness calls t.member.isStatic
    (t.inject pool r.targetMethod mode (d.context r t.member.isStatic) calls).mapError
      (injectionError r)

/-- Puts a rule's calls into those of some methods that have the name given by the rule. Each method
stands beside its name. -/
def injectMethods (d : ClassDraft) (r : Rule) (calls : List RegisterCall) (pool : ConstantPool) :
    List (String × TargetMethod) → Except TargetError (List TargetMethod × ConstantPool)
  | [] => .ok ([], pool)
  | (name, t) :: rest => do
    let (t, pool) ←
      if name = r.targetMethod then d.injectMethod r calls pool t else pure (t, pool)
    let (rest, pool) ← d.injectMethods r calls pool rest
    return (t :: rest, pool)

/-- Puts a rule's calls into a new static initializer, if that is the method given by the rule. -/
def synthesize (d : ClassDraft) (r : Rule) (calls : List RegisterCall) :
    Except TargetError ClassDraft :=
  match InjectionMode.select? false true (targetsInitializer r) with
  | some .synthesize => do
    r.checkStaticness calls true
    let (method, pool) ←
      (ClassFile.initializer d.file.pool (d.context r true) calls).mapError (injectionError r)
    return d.withMethods pool (d.methods ++ [⟨method, 0⟩])
  | _ => .error (.targetMethodNotFound r.targetClass r.targetMethod)

def inject (d : ClassDraft) (r : Rule) (matched : NameSet) :
    Except TargetError (ClassDraft × RuleInjection) := do
  let candidates ← (d.file.candidates r.registerMethod).mapError (injectionError r)
  let calls ← matched.toList.mapM (r.call candidates)
  let names ← (d.file.methods.mapM d.file.memberName).mapError fun cause =>
    injectionError r (.pool cause)
  let count := names.count r.targetMethod
  if count = 0 then
    let d ← d.synthesize r calls
    return (d, ⟨calls.length, 1⟩)
  else
    let (methods, pool) ← d.injectMethods r calls d.file.pool (names.zip d.methods)
    return (d.withMethods pool methods, ⟨calls.length, count⟩)

end ClassDraft

end Registrar
