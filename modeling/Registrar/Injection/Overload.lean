import Registrar.Injection.Error
import Registrar.Rule.Basic

/-!
# Which method registers a class

The class that registers may declare several methods with the name that a rule gives. Those that
take exactly one object are candidates. For each registered class the one that takes the class
itself is preferred, then the one that takes the rule's interface, then the one that takes one of
its superclasses, then the only one.
-/

namespace Registrar

structure RegisterCandidate where
  descriptor : String
  parameter : String
  isStatic : Bool
  returnSlots : Nat
  deriving DecidableEq, Repr

structure RegisterCall where
  className : String
  descriptor : String
  isStatic : Bool
  returnSlots : Nat
  deriving DecidableEq, Repr

def RegisterCandidate.call (c : RegisterCandidate) (className : String) : RegisterCall :=
  ⟨className, c.descriptor, c.isStatic, c.returnSlots⟩

/-- The candidate that a method is, if it has the name and takes one object. -/
def ClassFile.candidate? (c : ClassFile) (name : String) (m : Member) :
    Except InjectionError (Option RegisterCandidate) := do
  let found ← (c.memberName m).mapError .pool
  if found != name then return none
  let descriptor ← (c.memberDescriptor m).mapError .pool
  match ← (RegisterSignature.of? descriptor).mapError (.descriptor name descriptor) with
  | none => return none
  | some signature =>
    return some ⟨descriptor, signature.parameter, m.isStatic, signature.returnSlots⟩

/-- The methods of a class that have a name and take one object. -/
def ClassFile.candidates (c : ClassFile) (name : String) :
    Except InjectionError (List RegisterCandidate) :=
  (c.methods.mapM (c.candidate? name)).map (·.filterMap id)

namespace Rule

/-- The parameters that are preferred for a class, the best ones first. -/
def preferences (r : Rule) (className : String) : List (String → Bool) :=
  [fun parameter => parameter == className, fun parameter => r.scanInterface == some parameter,
    r.scanSuperClasses.contains]

/-- The candidates with the best parameters that any has; `none` if no parameter is preferred. -/
def preferred? (r : Rule) (className : String) (candidates : List RegisterCandidate) :
    Option (List RegisterCandidate) :=
  ((r.preferences className).map fun accepts => candidates.filter (accepts ·.parameter)).find?
    fun found => !found.isEmpty

def choose (r : Rule) (className : String) (candidates : List RegisterCandidate) :
    Except CallError RegisterCandidate :=
  match r.preferred? className candidates with
  | some [only] => .ok only
  | some found => .error (.ambiguous found.length className)
  | none =>
    match candidates with
    | [only] => .ok only
    | [] => .error .noOverload
    | _ => .error (.noneTakes candidates.length className)

def callError (r : Rule) (reason : CallError) : TargetError :=
  .registerMethod r.targetClass r.registerMethod reason

def call (r : Rule) (candidates : List RegisterCandidate) (className : String) :
    Except TargetError RegisterCall :=
  match r.choose className candidates with
  | .ok candidate => .ok (candidate.call className)
  | .error reason => .error (r.callError reason)

/-- Refuses a call of a static method from an instance method, and the other way round. -/
def checkStaticness (r : Rule) (calls : List RegisterCall) (isStatic : Bool) :
    Except TargetError Unit :=
  match calls.find? fun call => call.isStatic != isStatic with
  | none => .ok ()
  | some call =>
    .error (r.callError (.staticness r.registerMethod call.descriptor r.targetMethod call.isStatic))

end Rule

end Registrar
