import ClassAtlas.Proofs.Import.Failures
import ClassAtlas.Proofs.Import.Outcomes

/-!
# The accounts of an import

`Importer.run_accounts`: in the report of every import the counts and the issues agree with each
other and with what became of the locations. Recording keeps a report `Balanced` whatever is
recorded, so that only the sums depend on who records.
-/

namespace ClassAtlas

/-! ## Recording -/

/-- Only duplicates are warnings. -/
theorem Issue.severity_of_eq_warning_iff (error : ImportError) :
    (Issue.of error).severity = .warning ↔ (Issue.of error).kind = .duplicateClassIgnored := by
  cases error <;> simp [Issue.of, ImportError.severity, IssueKind.of]

/-- The error is a fault and no duplicate. -/
def IsFault (error : ImportError) : Prop := (Issue.of error).kind ≠ .duplicateClassIgnored

theorem Unreadable.isFault {error : ImportError} (h : Unreadable error) : IsFault error := by
  cases h
  exact fun same => IssueKind.noConfusion same

theorem Blames.isFault {location : Location} {error : ImportError} (h : Blames location error) :
    IsFault error := by
  cases h <;> exact fun same => IssueKind.noConfusion same

namespace Report

/-- The counts of a report are the numbers of its issues. -/
structure Balanced (report : Report) : Prop where
  failures : report.failures.length = report.failureCount
  duplicates : report.duplicates.length = report.duplicatesIgnored
  warnings : report.warnings = report.duplicates

variable {report : Report}

theorem length_filter_map_of (errors : List ImportError) (p : Issue → Bool) :
    ((errors.map Issue.of).filter p).length = errors.countP fun error => p (.of error) := by
  rw [← List.countP_eq_length_filter, List.countP_map]
  rfl

theorem Balanced.recordAll (h : report.Balanced) (errors : List ImportError) :
    (report.recordAll errors).Balanced := by
  rw [recordAll_eq]
  refine ⟨?_, ?_, ?_⟩
  · rw [Report.failures, List.filter_append, List.length_append, length_filter_map_of]
    exact congrArg (· + _) h.failures
  · rw [Report.duplicates, List.filter_append, List.length_append, length_filter_map_of]
    exact congrArg (· + _) h.duplicates
  · have same : (errors.map Issue.of).filter (·.severity = .warning) =
        (errors.map Issue.of).filter (·.kind = .duplicateClassIgnored) := by
      refine List.filter_congr fun issue inside => ?_
      obtain ⟨error, _, rfl⟩ := List.mem_map.mp inside
      exact decide_eq_decide.mpr (Issue.severity_of_eq_warning_iff error)
    rw [Report.warnings, Report.duplicates, List.filter_append, List.filter_append, same]
    exact congrArg (· ++ _) h.warnings

/-- A balanced report has failures exactly if it says so. -/
theorem Balanced.hasFailures_iff (h : report.Balanced) :
    report.hasFailures = true ↔ report.failures ≠ [] := by
  rw [hasFailures, decide_eq_true_iff, ← h.failures, List.length_pos_iff]

/-- Faults and duplicates are counted apart. -/
theorem counts_recordAll (report : Report) {faults duplicates : List ImportError}
    (first : ∀ error ∈ faults, IsFault error) (later : ∀ error ∈ duplicates, ¬IsFault error) :
    (report.recordAll (faults ++ duplicates)).failureCount =
        report.failureCount + faults.length ∧
      (report.recordAll (faults ++ duplicates)).duplicatesIgnored =
        report.duplicatesIgnored + duplicates.length := by
  have failures : (faults ++ duplicates).countP
      (fun error => (Issue.of error).kind ≠ .duplicateClassIgnored) = faults.length := by
    rw [List.countP_append, List.countP_eq_length.mpr, List.countP_eq_zero.mpr, Nat.add_zero]
    · exact fun error inside => mt of_decide_eq_true (later error inside)
    · exact fun error inside => decide_eq_true (first error inside)
  have ignored : (faults ++ duplicates).countP
      (fun error => (Issue.of error).kind = .duplicateClassIgnored) = duplicates.length := by
    rw [List.countP_append, List.countP_eq_zero.mpr, List.countP_eq_length.mpr, Nat.zero_add]
    · exact fun error inside => decide_eq_true (not_not.mp (later error inside))
    · exact fun error inside => mt of_decide_eq_true (first error inside)
  rw [recordAll_eq]
  exact ⟨congrArg _ failures, congrArg _ ignored⟩

end Report

/-! ## The report of an import -/

open Staging

/-- The report of an import of enumerated locations and of what became of each of them. -/
structure Accounts (enumeration : Enumeration) (outcomes : List Outcome) (report : Report) :
    Prop where
  /-- The outcomes stand in the order of the locations, one for each. -/
  each : List.Forall₂ Concerns enumeration.locations outcomes
  enumerated : report.locationsEnumerated = enumeration.locations.length
  /-- Every location is parsed, fails or is left out. -/
  locations : report.locationsEnumerated = report.classesParsed +
    (ParseOutcome.ofOutcomes outcomes).failures.length +
      (ParseOutcome.ofOutcomes outcomes).skipped
  parsed : report.classesParsed = (ParseOutcome.ofOutcomes outcomes).classes.length
  /-- Every class is imported or ignored as a duplicate. -/
  classes : report.classesParsed = report.classesImported + report.duplicatesIgnored
  failureCount : report.failureCount =
    enumeration.failures.length + (ParseOutcome.ofOutcomes outcomes).failures.length
  failures : report.failureCount = report.failures.length
  duplicates : report.duplicatesIgnored = report.duplicates.length
  warnings : report.duplicatesIgnored = report.warnings.length
  /-- Faults of the enumeration come first, then those of parsing, then duplicates. -/
  issues : report.issues = (enumeration.failures ++ (ParseOutcome.ofOutcomes outcomes).failures ++
    (clashes (ParseOutcome.ofOutcomes outcomes).classes).map clashError).map Issue.of
  /-- Faults of parsing come in the order of the locations that they name, -/
  failuresInOrder : ((ParseOutcome.ofOutcomes outcomes).failures.map ImportError.locations).Sublist
    (enumeration.locations.map fun location => [location.uri])
  /-- and so do duplicates in the order of the locations that are ignored. -/
  duplicatesInOrder : ((clashes (ParseOutcome.ofOutcomes outcomes).classes).map
    fun clash => clash.2.source).Sublist (enumeration.locations.map some)
  hasFailures : report.hasFailures = true ↔ report.failures ≠ []
  complete : report.complete = true ↔ (ParseOutcome.ofOutcomes outcomes).skipped = 0

namespace Importer

/-- The report to which all errors of an import are recorded. -/
def recorded (enumeration : Enumeration) (outcome : ParseOutcome) : Report :=
  Report.recordAll
    { locationsEnumerated := enumeration.locations.length
      classesParsed := outcome.classes.length
      complete := outcome.isComplete }
    (enumeration.failures ++ outcome.failures ++ (clashes outcome.classes).map clashError)

/-- The graph adds to it only how large it is. -/
theorem report_build (disk : Disk) (cancelled : Cancellation) (enumeration : Enumeration) :
    (build disk cancelled enumeration).report =
      { recorded enumeration (ParseOutcome.parse disk cancelled enumeration.locations) with
        classesImported :=
          (stageAll {} (ParseOutcome.parse disk cancelled enumeration.locations).classes).1.size
        externalClasses := (build disk cancelled enumeration).report.externalClasses } := by
  rw [recorded, ← stageAll_errors, Report.recordAll, List.foldl_append, List.foldl_append]
  rfl

theorem size_stageAll (items : List SourcedClass) :
    (stageAll {} items).1.size = (firsts SourcedClass.name items).length := by
  rw [← (holds_stageAll items).kept, Array.length_toList]
  rfl

section Recorded

variable (enumeration : Enumeration) (outcome : ParseOutcome)

theorem balanced_recorded : (recorded enumeration outcome).Balanced :=
  Report.Balanced.recordAll ⟨rfl, rfl, rfl⟩ _

theorem issues_recorded : (recorded enumeration outcome).issues =
    (enumeration.failures ++ outcome.failures ++
      (clashes outcome.classes).map clashError).map Issue.of :=
  (Report.issues_recordAll _ _).trans (List.nil_append _)

/-- What is not about errors stays as it was. -/
theorem counts_recorded : (recorded enumeration outcome).locationsEnumerated =
      enumeration.locations.length ∧
    (recorded enumeration outcome).classesParsed = outcome.classes.length ∧
    (recorded enumeration outcome).complete = outcome.isComplete := by
  rw [recorded, Report.recordAll_eq]
  exact ⟨rfl, rfl, rfl⟩

variable {enumeration outcome}

theorem errors_recorded (unreadable : ∀ error ∈ enumeration.failures, Unreadable error)
    (blamed : ∀ error ∈ outcome.failures, ∃ location, Blames location error) :
    (recorded enumeration outcome).failureCount =
        enumeration.failures.length + outcome.failures.length ∧
      (recorded enumeration outcome).duplicatesIgnored = (clashes outcome.classes).length := by
  have faults : ∀ error ∈ enumeration.failures ++ outcome.failures, IsFault error := by
    intro error inside
    rcases List.mem_append.mp inside with found | parsed
    · exact (unreadable error found).isFault
    · obtain ⟨location, blames⟩ := blamed error parsed
      exact blames.isFault
  have duplicates : ∀ error ∈ (clashes outcome.classes).map clashError, ¬IsFault error := by
    intro error inside
    obtain ⟨clash, _, rfl⟩ := List.mem_map.mp inside
    exact not_not.mpr rfl
  obtain ⟨failures, ignored⟩ := Report.counts_recordAll
    { locationsEnumerated := enumeration.locations.length
      classesParsed := outcome.classes.length
      complete := outcome.isComplete } faults duplicates
  rw [List.length_append, Nat.zero_add] at failures
  rw [List.length_map, Nat.zero_add] at ignored
  exact ⟨failures, ignored⟩

end Recorded

theorem accounts_build {disk : Disk} {cancelled : Cancellation} {enumeration : Enumeration}
    (unreadable : ∀ error ∈ enumeration.failures, Unreadable error) :
    Accounts enumeration (outcomesOf disk cancelled enumeration.locations)
      (build disk cancelled enumeration).report := by
  have each := forall₂_concerns disk cancelled enumeration.locations
  have total := ParseOutcome.total_ofOutcomes (outcomesOf disk cancelled enumeration.locations)
  rw [report_build, parse_eq_ofOutcomes, size_stageAll]
  generalize outcomesOf disk cancelled enumeration.locations = outcomes at each total ⊢
  obtain ⟨enumerated, parsed, complete⟩ := counts_recorded enumeration (.ofOutcomes outcomes)
  obtain ⟨failureCount, ignored⟩ := errors_recorded unreadable
    fun _ => ParseOutcome.blames_of_mem_failures each
  have balanced := balanced_recorded enumeration (.ofOutcomes outcomes)
  have kept := length_firsts_add_length_clashes (ParseOutcome.ofOutcomes outcomes).classes
  have ignoredInOrder := (clashes_sublist (ParseOutcome.ofOutcomes outcomes).classes).map
    SourcedClass.source
  rw [List.map_map] at ignoredInOrder
  exact
    { each := each
      enumerated := enumerated
      locations := by
        show (recorded _ _).locationsEnumerated = (recorded _ _).classesParsed + _ + _
        rw [enumerated, parsed, total, each.length_eq]
      parsed := parsed
      classes := by
        show (recorded _ _).classesParsed = _ + (recorded _ _).duplicatesIgnored
        rw [parsed, ignored, kept]
      failureCount := failureCount
      failures := balanced.failures.symm
      duplicates := balanced.duplicates.symm
      warnings := balanced.duplicates.symm.trans (congrArg List.length balanced.warnings.symm)
      issues := issues_recorded enumeration _
      failuresInOrder := ParseOutcome.failures_sublist each
      duplicatesInOrder := ignoredInOrder.trans (ParseOutcome.sources_sublist each)
      hasFailures := balanced.hasFailures_iff
      complete := (Bool.eq_iff_iff.mp complete).trans decide_eq_true_iff }

/-- Whatever is enumerated and whenever the import is cancelled, the import ends the program exactly
because of an entry that is too large and not left out. Else it gives a graph, and the report of the
graph accounts for every location. -/
theorem run_accounts {importer : Importer} {disk : Disk} {environment : Environment}
    {request : ImportRequest} {enumeration : Enumeration}
    (h : importer.enumerate disk environment request = .ok enumeration) (cancelled : Cancellation) :
    (importer.run disk environment cancelled request = .crashed ↔
      EndsAt disk (outcomesOf disk cancelled enumeration.locations)
        (headed enumeration.locations)) ∧
    (importer.run disk environment cancelled request ≠ .crashed →
      ∃ graph outcomes, importer.run disk environment cancelled request = .returned (.ok graph) ∧
        ParseOutcome.attempt disk cancelled enumeration.locations =
          .returned (.ofOutcomes outcomes) ∧
        Accounts enumeration outcomes graph.report) := by
  rw [run_eq h, ← ParseOutcome.overflows_iff, ParseOutcome.attempt]
  cases ParseOutcome.overflows disk cancelled enumeration.locations with
  | true => exact ⟨iff_of_true rfl rfl, fun ended => absurd rfl ended⟩
  | false =>
    refine ⟨iff_of_false ?_ Bool.false_ne_true, fun _ => ?_⟩
    · rintro ⟨⟩
    · exact ⟨_, _, rfl, congrArg Attempt.returned (parse_eq_ofOutcomes _ _ _),
        accounts_build (unreadable_of_enumerate h)⟩

/-- The token is set after the first of two files that are not there, and the other is left out. An
entry that is too large leaves no graph. -/
theorem run_accounts_looseFiles :
    (∃ enumeration graph outcomes,
      enumerate {} bareDisk {} (.locations looseFiles) = .ok enumeration ∧
      run {} bareDisk {} (fun _ question => decide (1 ≤ question)) (.locations looseFiles) =
        .returned (.ok graph) ∧
      ParseOutcome.attempt bareDisk (fun _ question => decide (1 ≤ question))
        enumeration.locations = .returned (.ofOutcomes outcomes) ∧
      Accounts enumeration outcomes graph.report) ∧
    run {} hugeDisk {} .never (.locations [hugeEntry]) = .crashed := by
  have listed : enumerate {} bareDisk {} (.locations looseFiles) =
      .ok (.ofFindings [] (looseFiles.map .location)) := rfl
  have loose : ∀ location ∈ (Enumeration.ofFindings [] (looseFiles.map .location)).locations,
      location.storage.archive? = none := by decide
  obtain ⟨crashed, accounts⟩ := run_accounts listed fun _ question => decide (1 ≤ question)
  obtain ⟨graph, outcomes, found⟩ := accounts (mt crashed.mp (not_endsAt_of_files loose))
  exact ⟨⟨_, graph, outcomes, rfl, found⟩, (run_accounts rfl .never).1.mpr endsAt_hugeEntry⟩

end Importer

end ClassAtlas
