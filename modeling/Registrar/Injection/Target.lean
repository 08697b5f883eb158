import Registrar.Injection.Basic
import Registrar.Inputs
import Registrar.Outline.Basic

/-!
# Changing the classes that register

* `materialize` : copies a class that registers to the work directory;
* `TargetGroup.run` : puts the calls of all rules for one class into it, in the order of the rules,
  and writes the result over the copy. A rule that fails leaves the class as it is;
* `injectAll` : all classes, in ascending order of their names.
-/

namespace Registrar

/-! ## The copy -/

structure Materialized where
  location : Root
  entryName : String
  scratchPath : String
  bytes : List UInt8
  deriving DecidableEq, Repr

/-- The path of the copy of an entry: piece by piece below the directory `classes` of the work
directory. -/
def scratchPath (work entry : String) : String :=
  (Path.pieces entry).foldl Path.join (Path.join work "classes")

def materialize (inputs : Inputs) (className work : String) :
    FileSystem.Action TargetError Materialized := do
  let fs ← get
  match inputs.locate? fs className with
  | none => throw (.targetClassNotFound className)
  | some root =>
    let entry := classEntryName className
    match root.readEntry fs entry with
    | .error cause => throw (.classExtraction className root.describe cause)
    | .ok bytes =>
      let path := scratchPath work entry
      (FileSystem.writeBelow path bytes).adaptExcept (.classExtraction className root.describe)
      return ⟨root, entry, path, bytes⟩

/-- The class of a copy. It must declare the name under which it was found. -/
def Materialized.decode (m : Materialized) (className : String) : Except TargetError ClassFile :=
  let fail (reason : MalformedClass) : Except TargetError ClassFile :=
    .error (.malformedClass (m.entryName ++ " in " ++ m.location.describe) reason)
  match ClassFile.decode m.bytes with
  | .error cause => fail (.format cause)
  | .ok file =>
    match file.name with
    | .error cause => fail (.pool cause)
    | .ok name => if name = className then .ok file else fail (.declares name)

/-! ## One class -/

inductive InjectionOutcome where
  | injected (entryName scratchPath : String) (registered methods : Nat)
  | skipped (error : TargetError)
  | noMatches
  deriving DecidableEq, Repr

def InjectionOutcome.isInjected : InjectionOutcome → Bool
  | .injected _ _ _ _ => true
  | _ => false

/-- A rule of a group: its position among all rules, and the classes that it registers. -/
structure GroupRule where
  index : Nat
  rule : Rule
  matched : NameSet

structure TargetGroup where
  target : String
  rules : List GroupRule

/-- What each rule changed, or why it failed, by its position among all rules. -/
abbrev GroupResults := List (Nat × Except TargetError RuleInjection)

namespace ClassDraft

/-- Puts the calls of rules into a class, one rule after the other. -/
def injectRules (d : ClassDraft) : List GroupRule → ClassDraft × GroupResults
  | [] => (d, [])
  | g :: rest =>
    match d.inject g.rule g.matched with
    | .ok (d, injection) =>
      let (d, results) := d.injectRules rest
      (d, (g.index, .ok injection) :: results)
    | .error error =>
      let (d, results) := d.injectRules rest
      (d, (g.index, .error error) :: results)

/-- The bytes of a class, if they can be read again. An attribute of unknown layout is no fault. -/
def encodeReadable (d : ClassDraft) : Except InjectionError (List UInt8) := do
  let bytes ← d.file.encode.mapError .encode
  match Outline.read bytes with
  | .ok _ => return bytes
  | .error cause => if cause.isUnknownAttribute then return bytes else throw (.unreadable cause)

end ClassDraft

namespace TargetGroup

/-- The outcome of each rule when all of them fail for one reason. -/
def skipAll (g : TargetGroup) (error : TargetError) : List (Nat × InjectionOutcome) :=
  g.rules.map fun r => (r.index, .skipped error)

def store (g : TargetGroup) (m : Materialized) (d : ClassDraft) :
    FileSystem.Action TargetError Unit := do
  match d.encodeReadable with
  | .error reason => throw (.injection g.target reason)
  | .ok bytes =>
    (FileSystem.writeBelow m.scratchPath bytes).adaptExcept fun cause =>
      .injection g.target (.file cause)

/-- The outcome of a rule, given why its class could not be written, if it could not. -/
def outcome (m : Materialized) (failure : Option TargetError) :
    Except TargetError RuleInjection → InjectionOutcome
  | .error error => .skipped error
  | .ok injection =>
    match failure with
    | none => .injected m.entryName m.scratchPath injection.registered injection.methods
    | some error => .skipped error

def anyApplied (results : GroupResults) : Bool :=
  results.any fun result =>
    match result.2 with
    | .ok _ => true
    | .error _ => false

def run (g : TargetGroup) (inputs : Inputs) (work : String) (fs : FileSystem) :
    List (Nat × InjectionOutcome) × FileSystem :=
  match materialize inputs g.target work fs with
  | .error error fs => (g.skipAll error, fs)
  | .ok m fs =>
    match m.decode g.target with
    | .error error => (g.skipAll error, fs)
    | .ok file =>
      let (d, results) := (ClassDraft.of file).injectRules g.rules
      if anyApplied results then
        let (failure, fs) :=
          match g.store m d fs with
          | .ok () fs => (none, fs)
          | .error error fs => (some error, fs)
        (results.map fun result => (result.1, outcome m failure result.2), fs)
      else (results.map fun result => (result.1, outcome m none result.2), fs)

/-- The groups of all rules that register a class, in ascending order of the classes that
register. -/
def all (rules : List Rule) (matched : List NameSet) : List TargetGroup :=
  let active : List GroupRule := ((rules.zip matched).zipIdx.map fun ((rule, names), index) =>
    ⟨index, rule, names⟩).filter fun g => !g.matched.isEmpty
  (NameSet.ofList (active.map (·.rule.targetClass))).toList.map fun target =>
    ⟨target, active.filter (·.rule.targetClass == target)⟩

def runAll (inputs : Inputs) (work : String) :
    List TargetGroup → FileSystem → List (Nat × InjectionOutcome) × FileSystem
  | [], fs => ([], fs)
  | g :: groups, fs =>
    let (outcomes, fs) := g.run inputs work fs
    let (others, fs) := runAll inputs work groups fs
    (outcomes ++ others, fs)

end TargetGroup

/-! ## All classes -/

/-- Changes all classes that register. Gives the outcome of each rule. -/
def injectAll (inputs : Inputs) (rules : List Rule) (matched : List NameSet) (work : String)
    (fs : FileSystem) : List InjectionOutcome × FileSystem :=
  let (outcomes, fs) := TargetGroup.runAll inputs work (TargetGroup.all rules matched) fs
  ((List.range rules.length).map fun index => (outcomes.lookup index).getD .noMatches, fs)

def substitutions (outcomes : List InjectionOutcome) : List (String × String) :=
  outcomes.filterMap fun outcome =>
    match outcome with
    | .injected entryName scratchPath _ _ => some (entryName, scratchPath)
    | _ => none

end Registrar
