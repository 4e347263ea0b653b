import ClassAtlas.Proofs.Explore.Roots
import ClassAtlas.Proofs.Explore.Unreadable
import ClassAtlas.Proofs.Import.Counted

/-!
# Searches with unreadable roots

A search fails if all its roots are unreadable. Otherwise each unreadable root leaves one failure,
in its place among the others, and all else is as in a search through the readable roots alone
(`Search.skips`).
-/

namespace ClassAtlas

/-! ## Locations without failures -/

theorem foundLocations_append (front back : List Finding) :
    foundLocations (front ++ back) = foundLocations front ++ foundLocations back :=
  List.filterMap_append

/-- But for failures an enumeration is that of the locations that are found. -/
theorem Enumeration.setFailures_ofFindings (filters : Filters) (findings : List Finding) :
    { ofFindings filters findings with failures := [] } =
      pushAll filters {} (foundLocations findings) := by
  induction findings using List.reverseRecOn with
  | nil => rfl
  | append_singleton front last ih =>
    rw [foundLocations_append_singleton, ofFindings, List.foldl_append]
    cases last with
    | location found =>
      show { push filters (ofFindings filters front) found with failures := [] } = _
      rw [← push_setFailures, ih]
      exact (pushAll_append_singleton {} _ _).symm
    | failure cause =>
      rw [Finding.location?, Option.toList_none, List.append_nil]
      exact ih

theorem Enumeration.congr_foundLocations (filters : Filters) {findings others : List Finding}
    (same : foundLocations findings = foundLocations others) :
    (ofFindings filters findings).locations = (ofFindings filters others).locations ∧
      (ofFindings filters findings).excluded = (ofFindings filters others).excluded ∧
      (ofFindings filters findings).repeated = (ofFindings filters others).repeated := by
  have pushed := setFailures_ofFindings filters findings
  rw [same, ← setFailures_ofFindings filters others] at pushed
  injection pushed with locations _ _ excluded repeated
  exact ⟨locations, excluded, repeated⟩

/-! ## Where a search looks -/

theorem Root.standing_place {disk : Disk} (path : Path) : (place path).Standing disk :=
  fun _ _ _ same => nomatch same

namespace Classpath

/-- The class path without its unreadable roots. -/
def readable (disk : Disk) (classpath : Classpath) : Classpath :=
  ⟨classpath.roots.filter fun path => (Root.place path).isReadable disk⟩

theorem targets_readable (disk : Disk) (classpath : Classpath) (package? : Option String) :
    (classpath.readable disk).targets package? =
      (classpath.targets package?).filter fun target => target.root.isReadable disk := by
  rw [targets, targets, List.filter_map]
  rfl

end Classpath

namespace ModuleStore

/-- The modules that a store is found to keep in directories have their directories. -/
theorem standing_of_discover {disk : Disk} {home : Path} {store : ModuleStore}
    (h : discover disk home = .ok store) {found : RuntimeModule} (there : found ∈ store.modules) :
    (Root.runtimeModule store.root found).Standing disk := by
  rintro _ _ directory ⟨⟩ source
  rcases module_of_discover h there with ⟨path, is⟩ | ⟨path, is⟩
  · obtain ⟨around, _, own⟩ := explodedModule?_eq_some_iff.mp is
    cases own.symm.trans source
    exact around
  · obtain ⟨_, _, own⟩ := packedModule?_eq_some_iff.mp is
    cases own.symm.trans source

/-- The store without its unreadable modules. -/
def readable (disk : Disk) (store : ModuleStore) : ModuleStore :=
  { store with
    modules := store.modules.filter fun found =>
      (Root.runtimeModule store.root found).isReadable disk }

theorem targets_readable (disk : Disk) (store : ModuleStore) (modules : ModuleFilter)
    (package? : Option String) : (store.readable disk).targets modules package? =
      (store.targets modules package?).filter fun target => target.root.isReadable disk := by
  rw [targets, targets, List.filter_map, readable, List.filter_filter, List.filter_filter]
  congr 1
  exact List.filter_congr fun found _ => Bool.and_comm _ _

end ModuleStore

namespace Search

/-- The search is for all that its roots hold, not for packages. -/
def Whole : Search → Prop
  | roots _ | entireClasspath _ _ | looseClasspath _ _ | runtimeModules _ _ => True
  | packages _ _ _ => False

/-- The same search through the readable roots alone. -/
def readable (disk : Disk) : Search → Search
  | roots paths => roots (paths.filter fun path =>
      (Root.place (Path.absolute disk.workingDirectory path)).isReadable disk)
  | entireClasspath classpath store? =>
    entireClasspath (classpath.readable disk) (store?.map (·.readable disk))
  | looseClasspath classpath store? =>
    looseClasspath (classpath.readable disk) (store?.map (·.readable disk))
  | packages classpath store? names =>
    packages (classpath.readable disk) (store?.map (·.readable disk)) names
  | runtimeModules store modules => runtimeModules (store.readable disk) modules

variable {disk : Disk} {explorer : Explorer} {search : Search}

theorem Whole.takes (whole : search.Whole) {package? : Option String}
    (takes : search.Takes package?) : package? = none := by
  cases search with
  | packages => exact whole.elim
  | roots | entireClasspath | looseClasspath | runtimeModules => exact takes

theorem sound_targets (whole : search.Whole)
    (found : ∀ store, search.store? = some store →
      ∃ home, ModuleStore.discover disk home = .ok store) :
    ∀ target ∈ search.targets disk, target.Sound disk := by
  intro target inside
  cases covers_of_mem_targets inside with
  | path => exact ⟨rfl, Root.standing_place _⟩
  | place _ _ takes => exact ⟨whole.takes takes, Root.standing_place _⟩
  | runtimeModule is there takes =>
    obtain ⟨home, discovered⟩ := found _ is
    exact ⟨whole.takes takes, ModuleStore.standing_of_discover discovered there⟩

theorem targets_readable (disk : Disk) (search : Search) :
    (search.readable disk).targets disk =
      (search.targets disk).filter fun target => target.root.isReadable disk := by
  have modules : ∀ (store? : Option ModuleStore) (package? : Option String),
      (store?.map (·.readable disk)).toList.flatMap (·.targets .all package?) =
        (store?.toList.flatMap (·.targets .all package?)).filter fun target =>
          target.root.isReadable disk := by
    intro store? package?
    cases store? with
    | none => rfl
    | some store => simp [ModuleStore.targets_readable]
  cases search with
  | roots paths =>
    rw [readable, targets, targets, List.filter_map]
    rfl
  | entireClasspath classpath store? | looseClasspath classpath store? =>
    rw [readable, targets, targets, List.filter_append, modules, Classpath.targets_readable]
  | packages classpath store? names =>
    rw [readable, targets, targets, List.filter_flatMap]
    simp only [List.filter_append, modules, Classpath.targets_readable]
  | runtimeModules store modules => exact ModuleStore.targets_readable disk store modules none

theorem ownFilters_readable (disk : Disk) (search : Search) :
    (search.readable disk).ownFilters = search.ownFilters := by
  cases search <;> rfl

section Sound

variable (options : WalkOptions) (sound : ∀ target ∈ search.targets disk, target.Sound disk)
include sound

/-- Unreadable roots add no locations. -/
theorem foundLocations_readable :
    foundLocations ((search.readable disk).findings options disk) =
      foundLocations (search.findings options disk) := by
  rw [findings, findings, targets_readable]
  generalize search.targets disk = targets at sound
  induction targets with
  | nil => rfl
  | cons target targets ih =>
    obtain ⟨first, others⟩ := List.forall_mem_cons.mp sound
    have rest := ih others
    rw [List.filter_cons, List.flatMap_cons, foundLocations_append]
    split
    next => rw [List.flatMap_cons, foundLocations_append, rest]
    next refused =>
      have unreadable := Root.isReadable_eq_false_iff.mp (Bool.eq_false_iff.mpr refused)
      rw [rest, Target.foundLocations_of_unreadable options first unreadable, List.nil_append]

variable (named : disk.root.Named)
include named

theorem fails_iff :
    search.Fails options disk ↔ ∀ target ∈ search.targets disk, target.root.Unreadable disk :=
  forall₂_congr fun target inside => Target.error_isSome_iff options named (sound target inside)

theorem not_fails_readable {target : Target} (there : target ∈ search.targets disk)
    (readable : ¬ target.root.Unreadable disk) :
    ¬ (search.readable disk).Fails options disk := by
  intro failed
  have kept : target ∈ (search.readable disk).targets disk := by
    rw [targets_readable]
    refine List.mem_filter.mpr ⟨there, ?_⟩
    rwa [← Bool.not_eq_false, Root.isReadable_eq_false_iff]
  have unreadable := Target.error_isSome_iff options named (sound target there)
  exact readable (unreadable.mp (failed target kept))

/-- The failures of a search are those that its roots leave, one root after the other. -/
theorem exists_left : ∃ left,
    (search.findings options disk).filterMap Finding.failure? = left.flatten ∧
      List.Forall₂ (fun target failures => target.root.Leaves disk options failures)
        (search.targets disk) left := by
  refine ⟨(search.targets disk).map fun target =>
    (target.findings disk options).filterMap Finding.failure?, ?_, ?_⟩
  · rw [findings, List.filterMap_flatMap, List.flatMap_def]
  · rw [List.forall₂_map_right_iff, List.forall₂_same]
    exact fun target inside => Target.leaves options named (sound target inside)

end Sound

/-- What becomes of the unreadable roots of a search. -/
structure Skips (explorer : Explorer) (disk : Disk) (search : Search) : Prop where
  /-- The search fails if no root can be read, and for no other reason. -/
  fails : ∀ error, search.run explorer disk = .error error ↔
    error = .nothingImportable search.requested ∧
      ∀ target ∈ search.targets disk, target.root.Unreadable disk
  /-- Otherwise unreadable roots leave failures, and all else is as if they were not asked for. -/
  gives : (∃ target ∈ search.targets disk, ¬ target.root.Unreadable disk) →
    ∃ all alone, search.run explorer disk = .ok all ∧
      (search.readable disk).run explorer disk = .ok alone ∧
      all.locations = alone.locations ∧ all.excluded = alone.excluded ∧
      all.repeated = alone.repeated ∧
      ∃ left, all.failures = left.flatten ∧ List.Forall₂
        (fun target failures => target.root.Leaves disk explorer.walk failures)
        (search.targets disk) left

/-- On a disk whose files have names, a search that is not for packages skips unreadable roots. -/
theorem skips (explorer : Explorer) (named : disk.root.Named) (whole : search.Whole)
    (found : ∀ store, search.store? = some store →
      ∃ home, ModuleStore.discover disk home = .ok store) : search.Skips explorer disk := by
  have sound := sound_targets whole found
  have fails := fails_iff explorer.walk sound named
  by_cases unreadable : ∀ target ∈ search.targets disk, target.root.Unreadable disk
  · rw [← fails] at unreadable
    constructor
    · intro error
      rw [run_of_fails unreadable, ← fails]
      constructor
      · rintro ⟨⟩
        exact ⟨rfl, unreadable⟩
      · rintro ⟨rfl, _⟩
        rfl
    · rintro ⟨target, there, readable⟩
      exact absurd (fails.mp unreadable target there) readable
  · have reads : ¬ search.Fails explorer.walk disk := fun failed => unreadable (fails.mp failed)
    constructor
    · intro error
      rw [run_of_not_fails reads]
      constructor
      · rintro ⟨⟩
      · rintro ⟨_, all⟩
        exact absurd all unreadable
    · rintro ⟨target, there, readable⟩
      have alone := not_fails_readable explorer.walk sound named there readable
      obtain ⟨left, whole, each⟩ := exists_left explorer.walk sound named
      obtain ⟨locations, excluded, repeated⟩ := Enumeration.congr_foundLocations
        (explorer.filters ++ search.ownFilters) (foundLocations_readable explorer.walk sound).symm
      rw [run_of_not_fails reads, run_of_not_fails alone, ownFilters_readable]
      refine ⟨_, _, rfl, rfl, locations, excluded, repeated, left, ?_, each⟩
      rw [Enumeration.failures_ofFindings, whole]

/-- A disk with a class, an archive without content and a module. -/
def skippedDisk : Disk where
  root := .directory [("A.class", .file []), ("b.jar", .file []),
    ("java", .directory [("modules", .directory [("m", .directory [("B.class", .file [])])])])]
  workingDirectory := ⟨"/"⟩

/-- The module as a store has it. -/
def skippedStore : ModuleStore where
  root := ⟨"/java"⟩
  modules := [{ name := "m", source := .exploded ⟨"/java/modules/m"⟩ }]
  hasImage := false

theorem plain_skippedDisk : skippedDisk.root.Plain := by
  simp only [skippedDisk, FileTree.Plain, FileTree.PlainAll, and_true]
  decide

theorem discover_skippedDisk : ModuleStore.discover skippedDisk ⟨"/java"⟩ = .ok skippedStore := by
  have java : skippedDisk.isDirectory ⟨"/java"⟩ = true := by
    rw [Disk.isDirectory, Disk.find_eq plain_skippedDisk]
    rfl
  have modules : skippedDisk.find ⟨"/java/modules"⟩ =
      .ok (.directory [("m", .directory [("B.class", .file [])])]) := by
    rw [Disk.find_eq plain_skippedDisk]
    rfl
  have m : skippedDisk.isDirectory ⟨"/java/modules/m"⟩ = true := by
    rw [Disk.isDirectory, Disk.find_eq plain_skippedDisk]
    rfl
  have image : skippedDisk.isFile ⟨"/java/lib/modules"⟩ = false := by
    rw [Disk.isFile, Disk.find_eq plain_skippedDisk]
    rfl
  have directories : ModuleStore.listed skippedDisk ⟨"/java/modules"⟩ =
      [⟨"/java/modules/m"⟩] := by
    rw [ModuleStore.listed, Disk.children_of_single modules]
    rfl
  have archives : ModuleStore.listed skippedDisk ⟨"/java/jmods"⟩ = [] := by
    rw [ModuleStore.listed, Disk.children, Disk.find_eq plain_skippedDisk]
    rfl
  have joined : Path.join ⟨"/java"⟩ ⟨"modules"⟩ = ⟨"/java/modules"⟩ ∧
      Path.join ⟨"/java"⟩ ⟨"jmods"⟩ = ⟨"/java/jmods"⟩ ∧
      Path.join ⟨"/java"⟩ ModuleStore.imagePlace = ⟨"/java/lib/modules"⟩ := by decide
  have exploded : ModuleStore.explodedModule? skippedDisk ⟨"/java/modules/m"⟩ =
      some { name := "m", source := .exploded ⟨"/java/modules/m"⟩ } :=
    ModuleStore.explodedModule?_eq_some_iff.mpr ⟨m, by decide, rfl⟩
  have all : ModuleStore.candidates skippedDisk ⟨"/java"⟩ = skippedStore.modules := by
    rw [ModuleStore.candidates, ModuleStore.exploded, ModuleStore.packed, joined.1, joined.2.1,
      directories, archives, List.filterMap_cons, exploded]
    rfl
  have kept : firsts RuntimeModule.name skippedStore.modules = skippedStore.modules :=
    firsts_eq_self _ (List.nodup_singleton "m")
  rw [ModuleStore.discover_eq java, all, kept, joined.2.2, image,
    List.mergeSort_of_pairwise (by decide)]
  rfl

/-- The class path has a root that is missing and one that does not open. -/
def skippedSearch : Search :=
  entireClasspath ⟨[⟨"/none"⟩, ⟨"/A.class"⟩, ⟨"/b.jar"⟩]⟩ (some skippedStore)

theorem skips_skippedDisk :
    skippedDisk.root.Named ∧ ModuleStore.discover skippedDisk ⟨"/java"⟩ = .ok skippedStore ∧
    ∃ all alone, skippedSearch.run {} skippedDisk = .ok all ∧
      (skippedSearch.readable skippedDisk).run {} skippedDisk = .ok alone ∧
      all.locations = alone.locations ∧
      ∃ first second rest, all.failures =
        .unreadable "/none" first :: .unreadable "/b.jar" second :: rest := by
  have named : skippedDisk.root.Named := by
    simp only [skippedDisk, FileTree.Named, FileTree.NamedAll, and_true]
    decide
  have found : ∀ store, skippedSearch.store? = some store →
      ∃ home, ModuleStore.discover skippedDisk home = .ok store := by
    rintro store ⟨⟩
    exact ⟨_, discover_skippedDisk⟩
  have missing : skippedDisk.find ⟨"/none"⟩ = .error .notFound := by
    rw [Disk.find_eq plain_skippedDisk]
    rfl
  have a : skippedDisk.find ⟨"/A.class"⟩ = .ok (.file []) := by
    rw [Disk.find_eq plain_skippedDisk]
    rfl
  have b : skippedDisk.find ⟨"/b.jar"⟩ = .ok (.file []) := by
    rw [Disk.find_eq plain_skippedDisk]
    rfl
  have missing : (Root.place ⟨"/none"⟩).Unreadable skippedDisk := .missing missing
  have readable : ¬ (Root.place ⟨"/A.class"⟩).Unreadable skippedDisk := by
    rw [← Root.isReadable_eq_false_iff, Root.isReadable, a]
    decide
  have unopened : (Root.place ⟨"/b.jar"⟩).Unreadable skippedDisk := by
    obtain ⟨cause, refused⟩ : ∃ cause, Archive.openAt skippedDisk ⟨"/b.jar"⟩ = .error cause := by
      rw [Archive.openAt, b]
      exact ⟨_, rfl⟩
    exact .unopened b rfl (by decide) refused
  have plain : skippedDisk.isDirectory ⟨"/A.class"⟩ = false := by
    rw [Disk.isDirectory, a]
    rfl
  have skipped : skippedSearch.Skips {} skippedDisk := skips {} named trivial found
  obtain ⟨all, alone, run, run', locations, _, _, left, whole, each⟩ := skipped.gives
    ⟨{ root := .place ⟨"/A.class"⟩ }, List.mem_cons_of_mem _ List.mem_cons_self, readable⟩
  refine ⟨named, discover_skippedDisk, all, alone, run, run', locations, ?_⟩
  have targets : skippedSearch.targets skippedDisk =
      { root := .place ⟨"/none"⟩ } :: { root := .place ⟨"/A.class"⟩ } ::
        { root := .place ⟨"/b.jar"⟩ } :: skippedStore.targets .all Option.none := rfl
  rw [targets] at each
  obtain _ | ⟨first, _ | ⟨second, _ | ⟨third, rest⟩⟩⟩ := each
  rw [whole]
  obtain ⟨reason, rfl⟩ := first.of_unreadable missing
  obtain ⟨reason', rfl⟩ := third.of_unreadable unopened
  rw [second.unique (.single plain readable)]
  exact ⟨reason, reason', _, rfl⟩

end Search

end ClassAtlas
