import ClassAtlas.Importer
import ClassAtlas.Proofs.Explore.Sources

/-!
# Failures of an enumeration

Whatever a request asks for, looking for class files comes upon locations and upon places that
cannot be read: `Importer.unreadable_of_enumerate`. What is wrong inside a class file is learned
later, and that a name is taken later still.
-/

namespace ClassAtlas

/-- The error says of a place that it cannot be read. -/
inductive Unreadable : ImportError → Prop where
  | of (place reason : String) : Unreadable (.unreadable place reason)

namespace Finding

/-- What is found is a location or a place that cannot be read. -/
inductive Sound : Finding → Prop where
  | location (found : Location) : Sound (.location found)
  | failure {cause : ImportError} (unreadable : Unreadable cause) : Sound (.failure cause)

theorem sound_of_mem_map {locations : List Location} :
    ∀ finding ∈ locations.map Finding.location, finding.Sound := by
  intro finding inside
  obtain ⟨found, _, rfl⟩ := List.mem_map.mp inside
  exact .location found

end Finding

open Finding

/-! ## Roots -/

namespace Exploration

/-- All that is found is sound; the error of the root itself is not among it. -/
def Sound (exploration : Exploration) : Prop :=
  ∀ finding ∈ exploration.findings, finding.Sound

end Exploration

theorem Root.sound_explore {disk : Disk} (options : WalkOptions) (root : Root)
    (package? : Option String) : (root.explore disk options package?).Sound := by
  intro finding inside
  cases finds_of_mem_explore inside with
  | file | inner | archive | single | exploded | packed => exact .location _
  | unopened | unvisited | unvisitedEntry => exact .failure (.of _ _)

theorem Target.sound_findings {disk : Disk} (options : WalkOptions) (target : Target) :
    ∀ finding ∈ target.findings disk options, finding.Sound := by
  intro finding inside
  rcases List.mem_append.mp inside with found | own
  · exact Root.sound_explore options target.root target.package? finding found
  · obtain ⟨error, _, rfl⟩ := List.mem_map.mp own
    exact .failure (.of _ _)

/-! ## Enumerations -/

/-- The failure that was come upon, if it was one. -/
def Finding.failure? : Finding → Option ImportError
  | location _ => none
  | failure cause => some cause

theorem Enumeration.failures_push (filters : Filters) (enumeration : Enumeration)
    (found : Location) : (enumeration.push filters found).failures = enumeration.failures := by
  rw [push]
  split
  · rfl
  · split
    · rfl
    · rfl

/-- An enumeration drops no failure. -/
theorem Enumeration.failures_ofFindings (filters : Filters) (findings : List Finding) :
    (ofFindings filters findings).failures = findings.filterMap Finding.failure? := by
  suffices ∀ enumeration : Enumeration, (findings.foldl (add filters) enumeration).failures =
      enumeration.failures ++ findings.filterMap Finding.failure? from this {}
  induction findings with
  | nil => exact fun enumeration => (List.append_nil _).symm
  | cons finding findings ih =>
    intro enumeration
    rw [List.foldl_cons, ih]
    cases finding with
    | location found =>
      rw [add, failures_push]
      rfl
    | failure cause => exact List.append_assoc _ [cause] _

/-- Places that cannot be read are all that a sound enumeration complains of. -/
theorem Enumeration.unreadable_ofFindings {filters : Filters} {findings : List Finding}
    (sound : ∀ finding ∈ findings, finding.Sound) :
    ∀ error ∈ (ofFindings filters findings).failures, Unreadable error := by
  rw [failures_ofFindings]
  intro error inside
  obtain ⟨finding, found, tells⟩ := List.mem_filterMap.mp inside
  cases sound finding found with
  | location => cases tells
  | failure unreadable =>
    cases tells
    exact unreadable

/-- An explorer enumerates what its targets hold. -/
theorem Explorer.enumerate_eq_ok {explorer : Explorer} {disk : Disk} {targets : List Target}
    {requested : String} {enumeration : Enumeration}
    (h : explorer.enumerate disk targets requested = .ok enumeration) :
    enumeration =
      .ofFindings explorer.filters (targets.flatMap (·.findings disk explorer.walk)) := by
  rw [enumerate] at h
  split at h
  · cases h
  · exact (Except.ok.inj h).symm

/-- The locations of a request are those that it lists or those in its targets. -/
theorem Importer.exists_findings {importer : Importer} {disk : Disk} {environment : Environment}
    {request : ImportRequest} {enumeration : Enumeration}
    (h : importer.enumerate disk environment request = .ok enumeration) :
    (∃ listed : List Location,
        enumeration = .ofFindings importer.filters (listed.map Finding.location)) ∨
      ∃ filters options targets, enumeration =
        .ofFindings filters ((targets : List Target).flatMap (·.findings disk options)) := by
  cases request with
  | locations listed => exact .inl ⟨listed, (Except.ok.inj h).symm⟩
  | roots paths => exact .inr ⟨_, _, _, Explorer.enumerate_eq_ok h⟩
  | classpath => exact .inr ⟨_, _, _, Explorer.enumerate_eq_ok h⟩
  | classpathWith extra => exact .inr ⟨_, _, _, Explorer.enumerate_eq_ok h⟩
  | packages names => exact .inr ⟨_, _, _, Explorer.enumerate_eq_ok h⟩
  | classesOf names => exact .inr ⟨_, _, _, Explorer.enumerate_eq_ok h⟩
  | runtimeModules modules =>
    dsimp only [enumerate] at h
    split at h
    · exact .inr ⟨_, _, _, Explorer.enumerate_eq_ok h⟩
    · cases h

theorem Importer.unreadable_of_enumerate {importer : Importer} {disk : Disk}
    {environment : Environment} {request : ImportRequest} {enumeration : Enumeration}
    (h : importer.enumerate disk environment request = .ok enumeration) :
    ∀ error ∈ enumeration.failures, Unreadable error := by
  rcases exists_findings h with ⟨listed, rfl⟩ | ⟨filters, options, targets, rfl⟩
  · exact Enumeration.unreadable_ofFindings Finding.sound_of_mem_map
  · refine Enumeration.unreadable_ofFindings fun finding inside => ?_
    obtain ⟨target, _, found⟩ := List.mem_flatMap.mp inside
    exact target.sound_findings options finding found

end ClassAtlas
