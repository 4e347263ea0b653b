import ClassAtlas.ImportError

/-!
# Import reports

Every import gives a report beside its graph: counts, and one issue for each fault and each
ignored duplicate.
-/

namespace ClassAtlas

inductive IssueKind where
  | malformedClassFile
  | unreadableLocation
  | duplicateClassIgnored
  | other
  deriving Repr, DecidableEq, Inhabited

def IssueKind.of : ImportError → IssueKind
  | .malformedClassFile _ _ => malformedClassFile
  | .unreadable _ _ | .io _ | .archive _ _ | .badPath _ => unreadableLocation
  | .duplicateClass _ _ _ => duplicateClassIgnored
  | _ => other

/-- A fault that did not stop the import. -/
structure Issue where
  kind : IssueKind
  locations : List String
  message : String
  severity : Severity
  deriving Repr, DecidableEq, Inhabited

def Issue.of (error : ImportError) : Issue :=
  { kind := .of error, locations := error.locations, message := error.userMessage,
    severity := error.severity }

structure Report where
  locationsEnumerated : Nat := 0
  classesParsed : Nat := 0
  classesImported : Nat := 0
  externalClasses : Nat := 0
  duplicatesIgnored : Nat := 0
  failureCount : Nat := 0
  issues : List Issue := []
  /-- Whether every location was parsed. -/
  complete : Bool := true
  deriving Repr, DecidableEq, Inhabited

namespace Report

/-- A fault is counted as a duplicate or as a failure, and listed. -/
def record (report : Report) (error : ImportError) : Report :=
  let issue := Issue.of error
  if issue.kind = .duplicateClassIgnored then
    { report with
      duplicatesIgnored := report.duplicatesIgnored + 1, issues := report.issues ++ [issue] }
  else
    { report with failureCount := report.failureCount + 1, issues := report.issues ++ [issue] }

def recordAll (report : Report) (errors : List ImportError) : Report :=
  errors.foldl record report

def warnings (report : Report) : List Issue := report.issues.filter (·.severity = .warning)

def failures (report : Report) : List Issue :=
  report.issues.filter (·.kind ≠ .duplicateClassIgnored)

def duplicates (report : Report) : List Issue :=
  report.issues.filter (·.kind = .duplicateClassIgnored)

def hasFailures (report : Report) : Bool := 0 < report.failureCount

end Report

end ClassAtlas
