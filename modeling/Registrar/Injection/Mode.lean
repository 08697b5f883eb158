/-!
# Where calls go

A static method runs its calls first, so that what it does can count on them. An instance method and
the static initializer run them last, when the object or the class is ready. A missing static
initializer is made; no other method is.
-/

namespace Registrar

inductive InjectionMode where
  | entry
  | exit
  | synthesize
  deriving DecidableEq, Repr

/-- Where calls are put in a method; `none` if the method is missing and cannot be made. -/
def InjectionMode.select? (isDeclared isStatic isInitializer : Bool) : Option InjectionMode :=
  if isDeclared then some (if isStatic && !isInitializer then .entry else .exit)
  else if isInitializer then some .synthesize
  else none

end Registrar
