import Registrar.Code.Instruction
import Registrar.Injection.Overload

/-!
# The code that registers

* `RegistrationStep` : the instructions that registrations consist of, and their bytes;
* `RegisterCall.operands` : the constants of one call, added to the pool where they are missing;
* `RegisterCall.steps` : the instructions of one call: load the receiver of an instance method, make
  an object, call its constructor, call the register method, and drop the result;
* `registration` : the code of several calls.
-/

namespace Registrar

/-- An instruction of a registration. Operands are pool indices. -/
inductive RegistrationStep where
  | loadReceiver
  | newObject (owner : UInt16)
  | duplicate
  | construct (method : UInt16)
  | callStatic (method : UInt16)
  | callVirtual (method : UInt16)
  | callInterface (method : UInt16)
  | drop
  | dropTwo
  deriving DecidableEq, Repr

def RegistrationStep.encode : RegistrationStep → List UInt8
  | .loadReceiver => [Opcode.aload0]
  | .newObject owner => Opcode.newObject :: bytes16 owner
  | .duplicate => [Opcode.dup]
  | .construct method => Opcode.invokeSpecial :: bytes16 method
  | .callStatic method => Opcode.invokeStatic :: bytes16 method
  | .callVirtual method => Opcode.invokeVirtual :: bytes16 method
  | .callInterface method => Opcode.invokeInterface :: (bytes16 method ++ [2, 0])
  | .drop => [Opcode.pop]
  | .dropTwo => [Opcode.pop2]

structure CallContext where
  owner : String
  method : String
  isInterface : Bool
  isStatic : Bool
  deriving DecidableEq, Repr

structure CallOperands where
  owner : UInt16
  constructor : UInt16
  register : UInt16
  deriving DecidableEq, Repr

namespace RegisterCall

/-- The constants of a call, in the order in which they are looked up. -/
def operands (context : CallContext) (call : RegisterCall) :
    ConstantPool.Interning CallOperands := do
  let owner ← ConstantPool.classIndex call.className
  let constructor ← ConstantPool.methodRefIndex call.className ClassFile.constructor "()V" false
  let register ←
    ConstantPool.methodRefIndex context.owner context.method call.descriptor context.isInterface
  return ⟨owner, constructor, register⟩

def invocation (context : CallContext) (register : UInt16) : RegistrationStep :=
  if context.isStatic then .callStatic register
  else if context.isInterface then .callInterface register
  else .callVirtual register

def cleanup (slots : Nat) : List RegistrationStep :=
  match slots with
  | 0 => []
  | 1 => [.drop]
  | _ => [.dropTwo]

def steps (context : CallContext) (operands : CallOperands) (call : RegisterCall) :
    List RegistrationStep :=
  (if context.isStatic then [] else [.loadReceiver]) ++
    [.newObject operands.owner, .duplicate, .construct operands.constructor,
      invocation context operands.register] ++ cleanup call.returnSlots

end RegisterCall

def registrationSteps (context : CallContext) :
    List RegisterCall → ConstantPool.Interning (List RegistrationStep)
  | [] => pure []
  | call :: calls => do
    let operands ← call.operands context
    let rest ← registrationSteps context calls
    return call.steps context operands ++ rest

def registration (context : CallContext) (calls : List RegisterCall) :
    ConstantPool.Interning (List UInt8) := do
  return (← registrationSteps context calls).flatMap RegistrationStep.encode

def CallContext.stackNeed (context : CallContext) : UInt16 := if context.isStatic then 2 else 3

end Registrar
