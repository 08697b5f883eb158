import Registrar.Code.Insert
import Registrar.Injection.Mode
import Registrar.Injection.Registration

/-!
# Putting calls into one method

* `MethodBody.withCalls` : a body with the code of calls in it, and with the stack it needs;
* `TargetMethod` : a method together with the length of the registration code at its entry. Later
  calls go behind that code, so that calls run in the order of their rules;
* `TargetMethod.inject` : a method with one more rule's calls;
* `ClassFile.initializer` : a new static initializer that holds nothing but calls.
-/

namespace Registrar

def codeName : String := "Code"

namespace MethodBody

/-- The insertions that put the same code in front of every return of a code. -/
def beforeReturns (code : List Placed) (calls : List UInt8) : List Insertion :=
  (code.filter (·.instruction.isReturn)).map fun p => ⟨p.offset, calls, true⟩

/-- The stack of a body whose calls run on top of what it holds, if there are few enough slots. -/
def raisedStack (maxStack need : UInt16) : Except InjectionError UInt16 :=
  if maxStack.toNat + need.toNat < 0x10000 then .ok (maxStack + need) else .error .stackTooLarge

/-- The insertions of calls into a body, and its new stack. `entryLength` bytes of earlier calls
stand at the entry. -/
def plan (body : MethodBody) (mode : InjectionMode) (entryLength : Nat) (calls : List UInt8)
    (need : UInt16) : Except InjectionError (List Insertion × UInt16) :=
  match mode with
  | .entry => .ok ([⟨entryLength, calls, false⟩], max body.maxStack need)
  | .exit => do
    let code ← (Placed.decodeAll body.code).mapError .instruction
    let maxStack ← raisedStack body.maxStack need
    return (beforeReturns code calls, maxStack)
  | .synthesize => .error .synthesized

def withCalls (body : MethodBody) (pool : ConstantPool) (method : String) (mode : InjectionMode)
    (entryLength : Nat) (calls : List UInt8) (need : UInt16) :
    Except InjectionError MethodBody := do
  let (insertions, maxStack) ← body.plan mode entryLength calls need
  let moved ← (body.insert insertions pool).mapError (.relocation method)
  return { moved with maxStack }

end MethodBody

structure TargetMethod where
  member : Member
  /-- How many bytes of registration code stand at its entry. -/
  entryLength : Nat
  deriving DecidableEq, Repr

/-- Adds the constants of calls to a pool and gives their code. -/
def registrationIn (context : CallContext) (calls : List RegisterCall) (pool : ConstantPool) :
    Except InjectionError (List UInt8 × ConstantPool) :=
  match registration context calls pool with
  | .ok code pool => .ok (code, pool)
  | .error cause _ => .error (.pool cause)

namespace TargetMethod

/-- The length of the registration code at the entry after more calls. -/
def entryLengthAfter (t : TargetMethod) (mode : InjectionMode) (calls : List UInt8) : Nat :=
  match mode with
  | .entry => t.entryLength + calls.length
  | _ => t.entryLength

def withContent (m : Member) (position : Nat) (content : List UInt8) : Member :=
  { m with attributes := m.attributes.modify position fun a => { a with content } }

/-- A method with calls in it, and the pool with their constants. `name` is the name of the
method. -/
def inject (t : TargetMethod) (pool : ConstantPool) (name : String) (mode : InjectionMode)
    (context : CallContext) (calls : List RegisterCall) :
    Except InjectionError (TargetMethod × ConstantPool) := do
  let (code, pool) ← registrationIn context calls pool
  match t.member.attributePosition pool codeName with
  | none => throw (.noCode name)
  | some position =>
    let content := (t.member.attributes[position]?.map (·.content)).getD []
    let body ← (MethodBody.decode content).mapError .body
    let body ← body.withCalls pool name mode t.entryLength code context.stackNeed
    let content ← body.encode.mapError .encode
    return (⟨withContent t.member position content, t.entryLengthAfter mode code⟩, pool)

end TargetMethod

/-- A new static initializer that holds nothing but calls, and the pool with its constants. -/
def ClassFile.initializer (pool : ConstantPool) (context : CallContext)
    (calls : List RegisterCall) : Except InjectionError (Member × ConstantPool) := do
  let (sequence, pool) ← registrationIn context calls pool
  let body : MethodBody := ⟨context.stackNeed, 0, sequence ++ [Opcode.returnVoid], [], []⟩
  let names : ConstantPool.Interning (UInt16 × UInt16 × UInt16) := do
    let name ← ConstantPool.utf8Index ClassFile.staticInitializer
    let descriptor ← ConstantPool.utf8Index "()V"
    let code ← ConstantPool.utf8Index codeName
    return (name, descriptor, code)
  match names pool with
  | .error cause _ => throw (.pool cause)
  | .ok (name, descriptor, code) pool =>
    let content ← body.encode.mapError .encode
    return (⟨AccessFlags.static, name, descriptor, [⟨code, content⟩]⟩, pool)

end Registrar
