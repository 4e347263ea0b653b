import ClassAtlas.Proofs.Disk.Plain
import ClassAtlas.Proofs.Explore.Searches
import ClassAtlas.Proofs.Explore.Uris

/-!
# Further filters

A further filter that asks for the URI alone may be applied before or after a search
(`Search.run_narrowed`): it changes neither whether the search fails nor what it complains of, and
of the locations it drops those that it does not include. What it drops had no other location of the
same URI behind it that would now be kept.
-/

namespace ClassAtlas

namespace LocationFilter

/-- Locations of one URI are included together. -/
def ByUri (condition : LocationFilter) : Prop :=
  ∀ one other : Location, one.uri = other.uri →
    condition.includes one = condition.includes other

theorem byUri_noArchives : noArchives.ByUri := by
  intro one other same
  rw [includes, includes, Location.isArchive_congr same]

theorem byUri_noTests : noTests.ByUri := by
  intro one other same
  rw [includes, includes, same]

end LocationFilter

/-! ## Enumerations -/

/-- One enumeration is what a condition leaves of the other. -/
structure Enumeration.Thins (keeps : Location → Bool) (whole part : Enumeration) : Prop where
  locations : part.locations = whole.locations.filter keeps
  failures : part.failures = whole.failures

theorem keptLocations_thin {filters filters' : Filters} {keeps : Location → Bool}
    (more : ∀ location, filters'.includes location = (keeps location && filters.includes location))
    (byUri : ∀ one other : Location, one.uri = other.uri → keeps one = keeps other)
    (listed : List Location) :
    keptLocations filters' listed = (keptLocations filters listed).filter keeps := by
  have both : included filters' listed = (included filters listed).filter keeps := by
    unfold included
    rw [List.filter_filter]
    exact List.filter_congr fun location _ => more location
  rw [keptLocations, both, firsts_filter Location.uri byUri, keptLocations]

theorem Enumeration.thins_ofFindings {filters filters' : Filters} {keeps : Location → Bool}
    (more : ∀ location, filters'.includes location = (keeps location && filters.includes location))
    (byUri : ∀ one other : Location, one.uri = other.uri → keeps one = keeps other)
    (findings : List Finding) :
    Thins keeps (ofFindings filters findings) (ofFindings filters' findings) where
  locations := by
    rw [locations_ofFindings, locations_ofFindings]
    exact keptLocations_thin more byUri _
  failures := by
    rw [failures_ofFindings, failures_ofFindings]

/-! ## Searches -/

/-- The explorer with a further filter. -/
def Explorer.narrowed (explorer : Explorer) (condition : LocationFilter) : Explorer :=
  { explorer with filters := explorer.filters ++ [condition] }

/-- A search with a further condition beside the search without it. -/
structure Narrows (keeps : Location → Bool) (whole part : Except ImportError Enumeration) :
    Prop where
  /-- They fail together, and for one reason. -/
  fails : ∀ error, part = .error error ↔ whole = .error error
  /-- What the one gives, the other gives without what the condition drops. -/
  thins : ∀ all, whole = .ok all → ∃ rest, part = .ok rest ∧ all.Thins keeps rest

theorem includes_narrowed (filters own : Filters) (condition : LocationFilter)
    (location : Location) : Filters.includes ((filters ++ [condition]) ++ own) location =
      (condition.includes location && Filters.includes (filters ++ own) location) := by
  simp only [Filters.includes, List.all_append, List.all_cons, List.all_nil, Bool.and_true]
  rw [Bool.and_right_comm, Bool.and_comm (condition.includes location)]

theorem Search.narrows (search : Search) (explorer : Explorer) (disk : Disk)
    {condition : LocationFilter} (byUri : condition.ByUri) :
    Narrows condition.includes (search.run explorer disk)
      (search.run (explorer.narrowed condition) disk) := by
  by_cases fails : search.Fails explorer.walk disk
  · have fails' : search.Fails (explorer.narrowed condition).walk disk := fails
    rw [run_of_fails fails, run_of_fails fails']
    exact ⟨fun _ => Iff.rfl, fun _ given => nomatch given⟩
  · have reads : ¬ search.Fails (explorer.narrowed condition).walk disk := fails
    rw [run_of_not_fails fails, run_of_not_fails reads]
    constructor
    · intro error
      constructor
      · exact fun refused => nomatch refused
      · exact fun refused => nomatch refused
    · rintro all ⟨⟩
      have more := includes_narrowed explorer.filters search.ownFilters condition
      exact ⟨_, rfl, Enumeration.thins_ofFindings more byUri _⟩

/-- Whatever is looked for, a further filter that depends on the URI alone leaves of the locations
those that it includes, and nothing else changes. In particular the class path without archives is
the entire class path without the locations in archives. -/
theorem Search.run_narrowed (explorer : Explorer) (disk : Disk) :
    (∀ (search : Search) (condition : LocationFilter), condition.ByUri →
      Narrows condition.includes (search.run explorer disk)
        (search.run (explorer.narrowed condition) disk)) ∧
    ∀ (classpath : Classpath) (store? : Option ModuleStore),
      Narrows (!·.isArchive) (explorer.entireClasspath disk classpath store?)
        (explorer.looseClasspath disk classpath store?) := by
  constructor
  · exact fun search condition byUri => search.narrows explorer disk byUri
  · intro classpath store?
    exact (entireClasspath classpath store?).narrows explorer disk LocationFilter.byUri_noArchives

/-- A disk with a class and a test class. -/
def testedDisk : Disk where
  root := .directory [("A.class", .file []),
    ("out", .directory [("test", .directory [("B.class", .file [])])])]
  workingDirectory := ⟨"/"⟩

/-- Both classes are found, and the one without tests. -/
theorem Search.run_narrowed_testedDisk :
    LocationFilter.noTests.ByUri ∧
    ∃ all part, (roots [⟨"/A.class"⟩, ⟨"/out/test/B.class"⟩]).run {} testedDisk = .ok all ∧
      all.size = 2 ∧
      (roots [⟨"/A.class"⟩, ⟨"/out/test/B.class"⟩]).run (Explorer.narrowed {} .noTests)
        testedDisk = .ok part ∧
      part.locations = [.file ⟨"/"⟩ ⟨"/A.class"⟩] := by
  have first : ClassFileAt testedDisk ⟨"/A.class"⟩ :=
    ⟨by decide, by decide, by decide, [],
      Disk.find_of_under ["A.class"] rfl (by decide) rfl⟩
  have second : ClassFileAt testedDisk ⟨"/out/test/B.class"⟩ :=
    ⟨by decide, by decide, by decide, [],
      Disk.find_of_under ["out", "test", "B.class"] rfl (by decide) rfl⟩
  have all := run_classFiles {} (List.cons_ne_nil _ _)
    (List.forall_mem_cons.mpr ⟨first, List.forall_mem_singleton.mpr second⟩)
  have narrows := (run_narrowed {} testedDisk).1 (roots [⟨"/A.class"⟩, ⟨"/out/test/B.class"⟩])
    .noTests LocationFilter.byUri_noTests
  obtain ⟨part, given, thins⟩ := narrows.thins _ all
  refine ⟨LocationFilter.byUri_noTests, _, part, all, by decide, given, ?_⟩
  rw [thins.locations]
  decide +kernel

end ClassAtlas
