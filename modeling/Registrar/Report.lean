import Registrar.Assembly
import Registrar.Injection.Target
import Registrar.Json.Printer
import Registrar.Scan

/-!
# The report

A summary of one run as JSON: for each rule what it is, which classes it registers and what came of
it; then the counts of the scan, and what went into the archive, if one was assembled.
-/

namespace Registrar

def InjectionOutcome.toJson : InjectionOutcome → Json
  | .injected entryName scratchPath registered methods =>
    .object [("status", .string "injected"), ("entryName", .string entryName),
      ("scratchPath", .string scratchPath), ("registered", .ofNat registered),
      ("methods", .ofNat methods)]
  | .skipped error =>
    .object [("status", .string "skipped"), ("kind", .string error.kind),
      ("reason", .string error.message)]
  | .noMatches => .object [("status", .string "noMatches")]

def AssemblyReport.toJson (r : AssemblyReport) : Json :=
  .object [("output", .string r.output), ("entryCount", .ofNat r.entryCount),
    ("substituted", .ofStrings r.substituted), ("duplicates", .ofStrings r.duplicates)]

def Scan.toJson (s : Scan) : Json :=
  .object [("classes", .ofNat s.classCount), ("duplicatesSkipped", .ofNat s.duplicateCount),
    ("malformedSkipped", .ofNat s.malformed.length), ("malformed", .ofStrings s.malformed)]

structure RuleReport where
  rule : Rule
  matched : NameSet
  outcome : InjectionOutcome

def RuleReport.toJson (r : RuleReport) : Json :=
  .object [("config", r.rule.config.toJson), ("targetClass", .string r.rule.targetClass),
    ("targetMethod", .string r.rule.targetMethod), ("matched", .ofStrings r.matched.toList),
    ("injection", r.outcome.toJson)]

structure Report where
  rules : List RuleReport
  scan : Scan
  assembly : Option AssemblyReport
  traceId : Option String

namespace Report

def of (rules : List Rule) (scan : Scan) (outcomes : List InjectionOutcome)
    (assembly : Option AssemblyReport) (traceId : Option String) : Report :=
  ⟨(rules.zip (scan.matched.zip outcomes)).map fun (rule, matched, outcome) =>
      ⟨rule, matched, outcome⟩, scan, assembly, traceId⟩

def toJson (r : Report) : Json :=
  .object ([("rules", .array (r.rules.map (·.toJson))), ("scan", r.scan.toJson)] ++
    (r.assembly.map fun a => ("assembly", a.toJson)).toList ++
    (r.traceId.map fun id => ("traceId", .string id)).toList)

def text (r : Report) : String := r.toJson.pretty ++ "\n"

end Report

end Registrar
