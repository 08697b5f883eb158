import Registrar.Code.Layout
import Registrar.Descriptor
import Registrar.FileSystem.Access
import Registrar.Metadata.Basic

/-!
# Why a rule is skipped

`TargetError` lists the ways in which a class or a rule fails. Each concerns one class or one rule
only: the others go on.
-/

namespace Registrar

inductive MalformedClass where
  | metadata (cause : MetadataError)
  | format (cause : FormatError)
  | pool (cause : PoolError)
  | declares (name : String)
  deriving DecidableEq, Repr

def MalformedClass.message : MalformedClass → String
  | .metadata cause => cause.message
  | .format cause => cause.message
  | .pool cause => cause.message
  | .declares name => "declares class " ++ name

inductive CallError where
  | ambiguous (count : Nat) (className : String)
  | noOverload
  | noneTakes (count : Nat) (className : String)
  /-- The method is static and is to be called from an instance method, or the other way round. -/
  | staticness (method descriptor caller : String) (isStatic : Bool)
  deriving DecidableEq, Repr

def CallError.message : CallError → String
  | .ambiguous count className => s!"{count} overloads accept " ++ className
  | .noOverload => "no declared method takes exactly one object parameter"
  | .noneTakes count className => s!"{count} overloads and none takes " ++ className
  | .staticness method descriptor caller isStatic =>
    method ++ descriptor ++ " is " ++ (if isStatic then "static" else "an instance method") ++
      " but " ++ caller ++ " is " ++ (if isStatic then "an instance method" else "static")

inductive InjectionError where
  | pool (cause : PoolError)
  | descriptor (method text : String) (cause : DescriptorError)
  | noCode (method : String)
  | body (cause : FormatError)
  | instruction (cause : InstructionError)
  | stackTooLarge
  /-- A method that does not exist yet has no code to put calls into. -/
  | synthesized
  | relocation (method : String) (cause : RelocationError)
  | encode (cause : EncodeError)
  | unreadable (cause : OutlineError)
  | file (cause : AccessError)
  deriving DecidableEq, Repr

def InjectionError.message : InjectionError → String
  | .pool cause => cause.message
  | .descriptor method text cause =>
    "register method " ++ method ++ text ++ ": " ++ cause.message
  | .noCode method => "method " ++ method ++ " has no Code attribute"
  | .body cause => "parse Code attribute: " ++ cause.message
  | .instruction cause => cause.message
  | .stackTooLarge => "max_stack exceeds 65535"
  | .synthesized => "cannot rewrite a synthesized method"
  | .relocation method cause => "relocate code of " ++ method ++ ": " ++ cause.message
  | .encode cause => cause.message
  | .unreadable cause => "rewritten class does not parse: " ++ cause.message
  | .file cause => cause.message

inductive TargetError where
  | malformedClass (origin : String) (reason : MalformedClass)
  | targetClassNotFound (className : String)
  | targetMethodNotFound (className method : String)
  | classExtraction (className location : String) (reason : AccessError)
  | registerMethod (className method : String) (reason : CallError)
  | injection (className : String) (reason : InjectionError)
  deriving DecidableEq, Repr

namespace TargetError

def kind : TargetError → String
  | .malformedClass _ _ => "malformedClass"
  | .targetClassNotFound _ => "targetClassNotFound"
  | .targetMethodNotFound _ _ => "targetMethodNotFound"
  | .classExtraction _ _ _ => "classExtraction"
  | .registerMethod _ _ _ => "registerMethod"
  | .injection _ _ => "rewrite"

def message : TargetError → String
  | .malformedClass origin reason => "malformed class file " ++ origin ++ ": " ++ reason.message
  | .targetClassNotFound className =>
    "target class " ++ className ++ " not found in any input root"
  | .targetMethodNotFound className method =>
    "method " ++ method ++ " not found in target class " ++ className
  | .classExtraction className location reason =>
    "failed to extract " ++ className ++ " from " ++ location ++ ": " ++ reason.message
  | .registerMethod className method reason =>
    "cannot call register method " ++ method ++ " on " ++ className ++ ": " ++ reason.message
  | .injection className reason => "failed to rewrite " ++ className ++ ": " ++ reason.message

end TargetError

end Registrar
