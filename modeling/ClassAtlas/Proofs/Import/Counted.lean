import ClassAtlas.Proofs.Import.Kept

/-!
# What an enumeration counts

Every location that is pushed into an enumeration is kept, counted as repeated, or counted as
excluded, and one that was pushed before is not kept again (`Enumeration.tally_pushAll`).
-/

namespace ClassAtlas

/-- The URI of the location is that of an included one in front of it. -/
def Met (filters : Filters) (front : List Location) (location : Location) : Prop :=
  ∃ other ∈ included filters front, other.uri = location.uri

instance (filters : Filters) (front : List Location) (location : Location) :
    Decidable (Met filters front location) :=
  inferInstanceAs (Decidable (∃ other ∈ included filters front, other.uri = location.uri))

/-- Kept is what is included and has not been met in the locations in front of it. -/
theorem keptLocations_eq (filters : Filters) (listed : List Location) :
    keptLocations filters listed = ((withFront listed).filter fun p =>
      filters.includes p.2 ∧ ¬ Met filters p.1 p.2).map Prod.snd := by
  induction listed using List.reverseRecOn with
  | nil => rfl
  | append_singleton front location ih =>
    rw [withFront_append_singleton, List.filter_append, List.map_append, ← ih, keptLocations,
      included_append_singleton]
    by_cases includes : filters.includes location = true
    · rw [if_pos includes, firsts_append_singleton]
      by_cases met : Met filters front location
      · obtain ⟨other, inside, same⟩ := met
        rw [if_neg fun fresh => fresh other inside same, List.filter_cons_of_neg]
        · exact (List.append_nil _).symm
        · simpa [includes] using ⟨other, inside, same⟩
      · rw [if_pos fun other inside same => met ⟨other, inside, same⟩, List.filter_cons_of_pos]
        · rfl
        · simpa [includes] using met
    · rw [if_neg includes, List.append_nil, List.filter_cons_of_neg]
      · exact (List.append_nil _).symm
      · simp [includes]

namespace Enumeration

variable {filters : Filters}

/-! ## One location -/

theorem total_push (enumeration : Enumeration) (location : Location) :
    (enumeration.push filters location).size + (enumeration.push filters location).excluded +
        (enumeration.push filters location).repeated =
      enumeration.size + enumeration.excluded + enumeration.repeated + 1 := by
  rw [push]
  split
  · rfl
  · split
    · simp only [size, List.length_append, List.length_singleton]
      omega
    · simp only [size]
      omega

theorem repeated_push {enumeration : Enumeration} {listed : List Location}
    (kept : Kept filters listed enumeration) (location : Location) :
    (enumeration.push filters location).repeated =
      enumeration.repeated + if Met filters listed location then 1 else 0 := by
  have seen : enumeration.uris.contains location.uri = true ↔ Met filters listed location :=
    List.contains_iff_mem.trans (kept.uris location.uri)
  rw [push, ← if_congr seen rfl rfl]
  split
  · rfl
  · split
    · rfl
    · rfl

/-- A location that is not included, or whose URI is there, leaves what is kept as it is. -/
theorem keeps_push {enumeration : Enumeration} {location : Location}
    (known : filters.includes location = true → location.uri ∈ enumeration.uris) :
    (enumeration.push filters location).locations = enumeration.locations ∧
      (enumeration.push filters location).uris = enumeration.uris := by
  rw [push]
  split
  · exact ⟨rfl, rfl⟩
  next strange =>
    split
    next includes => exact absurd (List.contains_iff_mem.mpr (known includes)) strange
    next => exact ⟨rfl, rfl⟩

/-! ## Locations in a row -/

/-- The locations of a list, pushed one after the other. -/
def pushAll (filters : Filters) (enumeration : Enumeration) (pushed : List Location) :
    Enumeration :=
  pushed.foldl (push filters) enumeration

theorem pushAll_append_singleton (enumeration : Enumeration) (front : List Location)
    (location : Location) : enumeration.pushAll filters (front ++ [location]) =
      (enumeration.pushAll filters front).push filters location := List.foldl_append

theorem pushAll_eq_ofFindings (pushed : List Location) :
    pushAll filters {} pushed = ofFindings filters (pushed.map Finding.location) := by
  rw [ofFindings, List.foldl_map]
  rfl

theorem kept_pushAll (pushed : List Location) :
    Kept filters pushed (pushAll filters {} pushed) := by
  rw [pushAll_eq_ofFindings]
  exact kept_ofFindings filters pushed

theorem total_pushAll (pushed : List Location) :
    (pushAll filters {} pushed).size + (pushAll filters {} pushed).excluded +
      (pushAll filters {} pushed).repeated = pushed.length := by
  induction pushed using List.reverseRecOn with
  | nil => rfl
  | append_singleton front location ih =>
    rw [pushAll_append_singleton, total_push, ih, List.length_append, List.length_singleton]

theorem repeated_pushAll (pushed : List Location) : (pushAll filters {} pushed).repeated =
    (withFront pushed).countP fun p => Met filters p.1 p.2 := by
  induction pushed using List.reverseRecOn with
  | nil => rfl
  | append_singleton front location ih =>
    rw [pushAll_append_singleton, repeated_push (kept_pushAll front), ih,
      withFront_append_singleton, List.countP_append, List.countP_singleton]
    simp only [decide_eq_true_iff]

theorem keeps_pushAll {enumeration : Enumeration} {pushed : List Location}
    (known : ∀ location ∈ pushed, filters.includes location = true →
      location.uri ∈ enumeration.uris) :
    (enumeration.pushAll filters pushed).locations = enumeration.locations := by
  induction pushed generalizing enumeration with
  | nil => rfl
  | cons location pushed ih =>
    obtain ⟨first, others⟩ := List.forall_mem_cons.mp known
    obtain ⟨locations, uris⟩ := keeps_push first
    show ((enumeration.push filters location).pushAll filters pushed).locations = _
    rw [ih (by rwa [uris]), locations]

/-- What becomes of the locations that are pushed into an empty enumeration. -/
structure Tally (filters : Filters) (pushed : List Location) (all : Enumeration) : Prop where
  /-- No URI is kept twice. -/
  distinct : (all.locations.map Location.uri).Nodup
  /-- Kept is what is included and has no URI of an included location in front of it. -/
  kept : all.locations = ((withFront pushed).filter fun p =>
    filters.includes p.2 ∧ ¬ Met filters p.1 p.2).map Prod.snd
  /-- Repeated is what has the URI of an included location in front of it. -/
  repeated : all.repeated = (withFront pushed).countP fun p => Met filters p.1 p.2
  /-- Every location is counted once. -/
  total : all.size + all.excluded + all.repeated = pushed.length
  /-- The same locations once more add nothing. -/
  again : (all.pushAll filters pushed).locations = all.locations

theorem tally_pushAll (filters : Filters) (pushed : List Location) :
    Tally filters pushed (pushAll filters {} pushed) where
  distinct := by
    rw [(kept_pushAll pushed).locations]
    exact nodup_map_firsts Location.uri _
  kept := (kept_pushAll pushed).locations.trans (keptLocations_eq filters pushed)
  repeated := repeated_pushAll pushed
  total := total_pushAll pushed
  again := keeps_pushAll fun location inside includes =>
    ((kept_pushAll pushed).uris _).mpr ⟨location, List.mem_filter.mpr ⟨inside, includes⟩, rfl⟩

end Enumeration

end ClassAtlas
