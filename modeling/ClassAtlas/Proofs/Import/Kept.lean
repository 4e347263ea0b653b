import ClassAtlas.Enumeration
import ClassAtlas.Proofs.ClassGraph.Firsts

/-!
# What an enumeration keeps

Of listed locations an enumeration keeps those that the filters include, each URI once. What is kept
is kept again, whole or in part.
-/

namespace ClassAtlas

/-- The included locations, repeated or not. -/
def included (filters : Filters) (listed : List Location) : List Location :=
  listed.filter fun location => filters.includes location

theorem included_append_singleton (filters : Filters) (front : List Location)
    (location : Location) :
    included filters (front ++ [location]) =
      included filters front ++ if filters.includes location then [location] else [] := by
  rw [included, List.filter_append, List.filter_singleton, Bool.cond_eq_ite]
  rfl

/-- The locations that the filters include, without those whose URI an earlier one has. -/
def keptLocations (filters : Filters) (listed : List Location) : List Location :=
  firsts Location.uri (included filters listed)

/-- What an enumeration holds after the findings of a list. -/
structure Kept (filters : Filters) (listed : List Location) (enumeration : Enumeration) : Prop where
  locations : enumeration.locations = keptLocations filters listed
  uris : ∀ uri, uri ∈ enumeration.uris ↔ ∃ other ∈ included filters listed, other.uri = uri
  failures : enumeration.failures = []

section Kept

variable {filters : Filters} {listed : List Location}

theorem includes_of_mem_keptLocations {location : Location}
    (h : location ∈ keptLocations filters listed) : filters.includes location = true :=
  (List.mem_filter.mp (mem_of_mem_firsts Location.uri h)).2

/-- Nothing is dropped from kept locations, nor from some of them. -/
theorem keptLocations_of_sublist {part : List Location}
    (h : part.Sublist (keptLocations filters listed)) : keptLocations filters part = part := by
  have all : included filters part = part := by
    rw [included, List.filter_eq_self]
    exact fun location inside => includes_of_mem_keptLocations (h.subset inside)
  rw [keptLocations, all]
  exact firsts_eq_self Location.uri ((nodup_map_firsts Location.uri _).sublist (h.map Location.uri))

/-- A location that is not included, or whose URI is there, adds nothing. -/
theorem Kept.leave {enumeration next : Enumeration} {location : Location}
    (kept : Kept filters listed enumeration)
    (known : filters.includes location = true → location.uri ∈ enumeration.uris)
    (locations : next.locations = enumeration.locations) (uris : next.uris = enumeration.uris)
    (failures : next.failures = enumeration.failures) :
    Kept filters (listed ++ [location]) next := by
  refine ⟨?_, ?_, failures.trans kept.failures⟩
  · rw [locations, kept.locations, keptLocations, keptLocations, included_append_singleton]
    split
    next includes =>
      obtain ⟨other, inside, same⟩ := (kept.uris _).mp (known includes)
      rw [firsts_append_singleton, if_neg fun fresh => fresh other inside same]
    next => rw [List.append_nil]
  · intro uri
    rw [uris, kept.uris, included_append_singleton]
    constructor
    · rintro ⟨other, inside, named⟩
      exact ⟨other, List.mem_append_left _ inside, named⟩
    · rintro ⟨other, inside, rfl⟩
      rcases List.mem_append.mp inside with before | last
      · exact ⟨other, before, rfl⟩
      · split at last
        next includes =>
          rw [List.mem_singleton.mp last]
          exact (kept.uris _).mp (known includes)
        next => cases last

theorem Kept.keep {enumeration : Enumeration} {location : Location}
    (kept : Kept filters listed enumeration) (includes : filters.includes location = true)
    (strange : location.uri ∉ enumeration.uris) :
    Kept filters (listed ++ [location])
      { enumeration with
        locations := enumeration.locations ++ [location]
        uris := location.uri :: enumeration.uris } := by
  have fresh : ∀ other ∈ included filters listed, other.uri ≠ location.uri :=
    fun other inside same => strange ((kept.uris _).mpr ⟨other, inside, same⟩)
  have more : included filters (listed ++ [location]) = included filters listed ++ [location] := by
    rw [included_append_singleton, if_pos includes]
  refine ⟨?_, ?_, kept.failures⟩
  · show enumeration.locations ++ [location] = _
    rw [kept.locations, keptLocations, keptLocations, more, firsts_append_singleton, if_pos fresh]
  · intro uri
    rw [List.mem_cons, kept.uris, more]
    simp only [List.mem_append, List.mem_singleton]
    constructor
    · rintro (rfl | ⟨other, inside, named⟩)
      · exact ⟨location, .inr rfl, rfl⟩
      · exact ⟨other, .inl inside, named⟩
    · rintro ⟨other, inside | rfl, named⟩
      · exact .inr ⟨other, inside, named⟩
      · exact .inl named.symm

theorem Kept.push {enumeration : Enumeration} (kept : Kept filters listed enumeration)
    (location : Location) :
    Kept filters (listed ++ [location]) (enumeration.push filters location) := by
  rw [Enumeration.push]
  split
  next seen => exact kept.leave (fun _ => List.contains_iff_mem.mp seen) rfl rfl rfl
  next strange =>
    split
    next includes => exact kept.keep includes fun seen => strange (List.contains_iff_mem.mpr seen)
    next excluded => exact kept.leave (fun includes => absurd includes excluded) rfl rfl rfl

theorem kept_ofFindings (filters : Filters) (listed : List Location) :
    Kept filters listed (Enumeration.ofFindings filters (listed.map Finding.location)) := by
  induction listed using List.reverseRecOn with
  | nil => exact ⟨rfl, fun uri => by simp [Enumeration.ofFindings, included], rfl⟩
  | append_singleton front location ih =>
    rw [List.map_append, Enumeration.ofFindings, List.foldl_append]
    exact ih.push location

/-! ## Findings of all kinds -/

/-- The location that was come upon, if it was one. -/
def Finding.location? : Finding → Option Location
  | location found => some found
  | failure _ => none

/-- The locations among what was come upon. -/
def foundLocations (findings : List Finding) : List Location :=
  findings.filterMap Finding.location?

theorem foundLocations_append_singleton (front : List Finding) (last : Finding) :
    foundLocations (front ++ [last]) = foundLocations front ++ last.location?.toList := by
  rw [foundLocations, List.filterMap_append]
  cases last <;> rfl

theorem push_setFailures (filters : Filters) (enumeration : Enumeration)
    (failures : List ImportError) (location : Location) :
    ({ enumeration with failures } : Enumeration).push filters location =
      { enumeration.push filters location with failures } := by
  unfold Enumeration.push
  by_cases seen : enumeration.uris.contains location.uri = true
  · simp only [if_pos seen]
  · by_cases includes : filters.includes location = true
    · simp only [if_neg seen, if_pos includes]
    · simp only [if_neg seen, if_neg includes]

/-- Failures among the findings make no difference to what is kept. -/
theorem kept_findings (filters : Filters) (findings : List Finding) :
    Kept filters (foundLocations findings)
      { Enumeration.ofFindings filters findings with failures := [] } := by
  induction findings using List.reverseRecOn with
  | nil => exact kept_ofFindings filters []
  | append_singleton front last ih =>
    rw [foundLocations_append_singleton, Enumeration.ofFindings, List.foldl_append]
    cases last with
    | location found =>
      have kept := ih.push found
      rw [push_setFailures] at kept
      exact kept
    | failure cause =>
      rw [Finding.location?, Option.toList_none, List.append_nil]
      exact ih

theorem locations_ofFindings (filters : Filters) (findings : List Finding) :
    (Enumeration.ofFindings filters findings).locations =
      keptLocations filters (foundLocations findings) :=
  (kept_findings filters findings).locations

end Kept

end ClassAtlas
