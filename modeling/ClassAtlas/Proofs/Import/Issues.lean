import ClassAtlas.Importer
import ClassAtlas.Proofs.ClassGraph.Staging
import ClassAtlas.Proofs.Parse.Alone
import Mathlib.Data.List.Forall2

/-!
# Issues of a report

Every error that is recorded gives one issue, in order. A location that cannot be read or parsed
gives an error that blames it, and a class whose name is taken one that names both places.
-/

namespace ClassAtlas

/-! ## Recording -/

namespace Report

/-- What recording adds to a report. -/
theorem recordAll_eq (report : Report) (errors : List ImportError) :
    report.recordAll errors =
      { report with
        duplicatesIgnored := report.duplicatesIgnored +
          errors.countP fun error => (Issue.of error).kind = .duplicateClassIgnored
        failureCount := report.failureCount +
          errors.countP fun error => (Issue.of error).kind ≠ .duplicateClassIgnored
        issues := report.issues ++ errors.map Issue.of } := by
  induction errors generalizing report with
  | nil => simp [recordAll]
  | cons error errors ih =>
    have rest := ih (report.record error)
    rw [recordAll, List.foldl_cons]
    refine rest.trans ?_
    rw [record]
    by_cases duplicate : (Issue.of error).kind = .duplicateClassIgnored
    · simp [duplicate]
      omega
    · simp [duplicate]
      omega

theorem issues_recordAll (report : Report) (errors : List ImportError) :
    (report.recordAll errors).issues = report.issues ++ errors.map Issue.of := by
  rw [recordAll_eq]

end Report

/-! ## Locations that fail -/

/-- The error says that the location cannot be read, or that there is no class in it. -/
inductive Blames (location : Location) : ImportError → Prop where
  | unreadable (reason : String) : Blames location (.unreadable location.uri reason)
  | malformed (cause : ClassFileError) : Blames location (.malformedClassFile location.uri cause)

theorem blames_of_decodeAt {location : Location} {bytes : Bytes} {error : ImportError}
    (h : decodeAt location bytes = .error error) : Blames location error := by
  rw [decodeAt] at h
  cases decoded : ClassDecl.decode bytes with
  | ok decl =>
    rw [decoded] at h
    cases h
  | error cause =>
    rw [decoded] at h
    cases h
    exact .malformed cause

theorem blames_of_atLocation {location : Location} {bytes : Except String Bytes}
    {error : ImportError}
    (h : (atLocation location.uri bytes).bind (decodeAt location) = .error error) :
    Blames location error := by
  cases bytes with
  | ok bytes => exact blames_of_decodeAt h
  | error reason =>
    cases h
    exact .unreadable reason

theorem blames_of_readClass {disk : Disk} {location : Location} {error : ImportError}
    (h : readClass disk location = .error error) : Blames location error := by
  rw [readClass, Location.read] at h
  split at h
  · exact blames_of_atLocation h
  · exact blames_of_atLocation h

theorem blames_of_readBeside {disk : Disk} {first location : Location} {error : ImportError}
    (h : readBeside disk first location = .error error) : Blames location error := by
  rw [readBeside] at h
  split at h
  · exact blames_of_atLocation h
  · exact blames_of_readClass h

/-- The errors of a list stand for its failures, one for each, in order. -/
theorem forall₂_errors {ι ε α : Type} {R : ι → ε → Prop} {f : ι → Except ε α}
    (h : ∀ i e, f i = .error e → R i e) (items : List ι) :
    List.Forall₂ R (items.filter fun i => !(f i).isOk)
      (items.filterMap fun i => errorOf? (f i)) := by
  induction items with
  | nil => exact .nil
  | cons i items ih =>
    rw [List.filterMap_cons]
    cases result : f i with
    | ok a =>
      rw [List.filter_cons_of_neg (by rw [result]; exact Bool.false_ne_true)]
      exact ih
    | error e =>
      rw [List.filter_cons_of_pos (by rw [result]; rfl)]
      exact .cons (h i e result) ih

/-- The issue says of a location that it cannot be read or parsed. -/
structure NamesFailure (location : Location) (issue : Issue) : Prop where
  kind : issue.kind = .unreadableLocation ∨ issue.kind = .malformedClassFile
  locations : issue.locations = [location.uri]

theorem Blames.namesFailure {location : Location} {error : ImportError}
    (h : Blames location error) :
    NamesFailure location (.of error) := by
  cases h with
  | unreadable reason => exact ⟨.inl rfl, rfl⟩
  | malformed cause => exact ⟨.inr rfl, rfl⟩

/-! ## Names that are taken -/

/-- The issue says that the class of the second location was ignored for that of the first. -/
structure NamesDuplicate (places : Location × Location) (issue : Issue) : Prop where
  kind : issue.kind = .duplicateClassIgnored
  locations : issue.locations = [places.1.uri, places.2.uri]

theorem namesDuplicate_clashError {places : Location × Location}
    {clash : SourcedClass × SourcedClass} (kept : clash.1.source = some places.1)
    (ignored : clash.2.source = some places.2) :
    NamesDuplicate places (.of (Staging.clashError clash)) := by
  refine ⟨rfl, ?_⟩
  show [clash.1.sourceText, clash.2.sourceText] = _
  rw [SourcedClass.sourceText, SourcedClass.sourceText, kept, ignored]

end ClassAtlas
