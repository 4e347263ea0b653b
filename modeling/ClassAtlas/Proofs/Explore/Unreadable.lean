import ClassAtlas.Proofs.Disk.Named
import ClassAtlas.Proofs.Explore.Packaged

/-!
# Unreadable roots

A root is unreadable if there is nothing, if it is of no supported kind, or if its archive does not
open (`Root.Unreadable`). Such a root has an error and nothing is found in it; a readable root has
none, and complains only of what is in its directory, if it is one (`Root.Leaves`).
-/

namespace ClassAtlas

namespace Root

/-- The root cannot be read. -/
inductive Unreadable (disk : Disk) : Root → Prop
  /-- There is nothing. -/
  | missing {path : Path} {fault : DiskFault} (absent : disk.find path = .error fault) :
    Unreadable disk (.place path)
  /-- It is neither a directory nor an archive nor a class file. -/
  | unsupported {path : Path} {tree : FileTree} (there : disk.find path = .ok tree)
    (single : tree.isDirectory = false) (plain : path.isArchive = false)
    (other : path.isClassFile = false) : Unreadable disk (.place path)
  /-- It is an archive that does not open. -/
  | unopened {path : Path} {tree : FileTree} {cause : ImportError}
    (there : disk.find path = .ok tree) (single : tree.isDirectory = false)
    (archive : path.isArchive = true) (refused : Archive.openAt disk path = .error cause) :
    Unreadable disk (.place path)
  | missingModule {store directory : Path} {found : RuntimeModule}
    (source : found.source = .exploded directory) (absent : disk.isDirectory directory = false) :
    Unreadable disk (.runtimeModule store found)
  | unopenedModule {store archive : Path} {found : RuntimeModule} {cause : ImportError}
    (source : found.source = .packed archive)
    (refused : Archive.openAt disk archive = .error cause) :
    Unreadable disk (.runtimeModule store found)

/-- Whether the root can be read. -/
def isReadable (disk : Disk) : Root → Bool
  | place path =>
    match disk.find path with
    | .error _ => false
    | .ok tree =>
      tree.isDirectory ||
        if path.isArchive then (Archive.openAt disk path).isOk else path.isClassFile
  | runtimeModule _ found =>
    match found.source with
    | .exploded directory => disk.isDirectory directory
    | .packed archive => (Archive.openAt disk archive).isOk

variable {disk : Disk} {options : WalkOptions} {root : Root}

theorem isReadable_exploded {store directory : Path} {found : RuntimeModule}
    (source : found.source = .exploded directory) :
    (runtimeModule store found).isReadable disk = disk.isDirectory directory := by
  rw [isReadable, source]

theorem isReadable_packed {store archive : Path} {found : RuntimeModule}
    (source : found.source = .packed archive) :
    (runtimeModule store found).isReadable disk = (Archive.openAt disk archive).isOk := by
  rw [isReadable, source]

theorem exists_of_isOk_eq_false {content : Except ImportError Archive}
    (h : content.isOk = false) : ∃ cause, content = .error cause := by
  cases content with
  | error cause => exact ⟨cause, rfl⟩
  | ok => cases h

/-- The root is readable unless there is a reason why not. -/
theorem isReadable_eq_false_iff : root.isReadable disk = false ↔ root.Unreadable disk := by
  constructor
  · intro unreadable
    cases root with
    | place path =>
      rw [isReadable] at unreadable
      cases there : disk.find path with
      | error fault => exact .missing there
      | ok tree =>
        rw [there] at unreadable
        obtain ⟨single, refused⟩ := Bool.or_eq_false_iff.mp unreadable
        split at refused
        next archive =>
          obtain ⟨cause, refused⟩ := exists_of_isOk_eq_false refused
          exact .unopened there single archive refused
        next plain => exact .unsupported there single (Bool.eq_false_iff.mpr plain) refused
    | runtimeModule store found =>
      cases source : found.source with
      | exploded directory =>
        rw [isReadable_exploded source] at unreadable
        exact .missingModule source unreadable
      | packed archive =>
        rw [isReadable_packed source] at unreadable
        obtain ⟨cause, refused⟩ := exists_of_isOk_eq_false unreadable
        exact .unopenedModule source refused
  · rintro (absent | ⟨there, single, plain, other⟩ | ⟨there, single, archive, refused⟩ |
      ⟨source, absent⟩ | ⟨source, refused⟩)
    · rw [isReadable, absent]
    · simp only [isReadable, there, single, plain, other]
      rfl
    · simp only [isReadable, there, single, archive, refused]
      rfl
    · rw [isReadable_exploded source, absent]
    · rw [isReadable_packed source, refused]
      rfl

/-- A module that is kept in a directory has its directory. -/
def Standing (disk : Disk) (root : Root) : Prop :=
  ∀ store found directory, root = .runtimeModule store found → found.source = .exploded directory →
    disk.isDirectory directory = true

/-- What an item of a walk complains of: that it could not be visited, or an archive that does not
open. -/
def itemFailure? (disk : Disk) : WalkItem → Option ImportError
  | .fault cause => some (.unreadable cause.path.text cause.message)
  | .visited _ false => none
  | .visited path true =>
    if path.isClassFile || !path.isArchive then none
    else
      match Archive.openAt disk path with
      | .ok _ => none
      | .error cause => some (.unreadable path.text cause.message)

/-- What an item of a walk through a module complains of. -/
def entryFailure? (name : String) : WalkItem → Option ImportError
  | .fault cause => some (.unreadable (moduleUri name) cause.message)
  | .visited _ _ => none

/-- The failures that a root leaves. -/
inductive Leaves (disk : Disk) (options : WalkOptions) : Root → List ImportError → Prop
  | unreadable {root : Root} {error : ImportError} (unreadable : root.Unreadable disk)
    (refused : (root.explore disk options none).error = some error) :
    Leaves disk options root [.unreadable root.describe error.message]
  | directory {path : Path} (there : disk.isDirectory path = true) :
    Leaves disk options (.place path) ((disk.walk options path).filterMap (itemFailure? disk))
  | single {path : Path} (plain : disk.isDirectory path = false)
    (readable : ¬ (place path).Unreadable disk) : Leaves disk options (.place path) []
  | exploded {store directory : Path} {found : RuntimeModule}
    (source : found.source = .exploded directory) (there : disk.isDirectory directory = true) :
    Leaves disk options (.runtimeModule store found)
      ((disk.walk options directory).filterMap (entryFailure? found.name))
  | packed {store archive : Path} {found : RuntimeModule}
    (source : found.source = .packed archive)
    (readable : ¬ (runtimeModule store found).Unreadable disk) :
    Leaves disk options (.runtimeModule store found) []

theorem not_unreadable_of_isDirectory {path : Path} (there : disk.isDirectory path = true) :
    ¬ (place path).Unreadable disk := by
  obtain ⟨entries, found⟩ := Disk.isDirectory_eq_true_iff.mp there
  rw [← isReadable_eq_false_iff, isReadable, found]
  exact fun refused => nomatch refused

theorem not_unreadable_of_exploded {store directory : Path} {found : RuntimeModule}
    (source : found.source = .exploded directory) (there : disk.isDirectory directory = true) :
    ¬ (runtimeModule store found).Unreadable disk := by
  rw [← isReadable_eq_false_iff, isReadable_exploded source, there]
  exact fun refused => nomatch refused

/-- There is only one way in which a root leaves failures. -/
theorem Leaves.unique {failures others : List ImportError}
    (h : root.Leaves disk options failures) (h' : root.Leaves disk options others) :
    failures = others := by
  cases h with
  | unreadable unreadable refused =>
    cases h' with
    | unreadable _ refused' =>
      rw [refused] at refused'
      cases refused'
      rfl
    | directory there => exact absurd unreadable (not_unreadable_of_isDirectory there)
    | exploded source there => exact absurd unreadable (not_unreadable_of_exploded source there)
    | single _ readable | packed _ readable => exact absurd unreadable readable
  | directory there =>
    cases h' with
    | unreadable unreadable => exact absurd unreadable (not_unreadable_of_isDirectory there)
    | directory => rfl
    | single plain =>
      rw [there] at plain
      cases plain
  | single plain readable =>
    cases h' with
    | unreadable unreadable => exact absurd unreadable readable
    | directory there =>
      rw [there] at plain
      cases plain
    | single => rfl
  | exploded source there =>
    cases h' with
    | unreadable unreadable => exact absurd unreadable (not_unreadable_of_exploded source there)
    | exploded source' =>
      rw [source] at source'
      cases source'
      rfl
    | packed source' =>
      rw [source] at source'
      cases source'
  | packed source readable =>
    cases h' with
    | unreadable unreadable => exact absurd unreadable readable
    | exploded source' =>
      rw [source] at source'
      cases source'
    | packed => rfl

/-- An unreadable root leaves one failure, which names it. -/
theorem Leaves.of_unreadable {failures : List ImportError}
    (h : root.Leaves disk options failures) (unreadable : root.Unreadable disk) :
    ∃ reason, failures = [.unreadable root.describe reason] := by
  cases h with
  | unreadable _ _ => exact ⟨_, rfl⟩
  | directory there => exact absurd unreadable (not_unreadable_of_isDirectory there)
  | exploded source there => exact absurd unreadable (not_unreadable_of_exploded source there)
  | single _ readable | packed _ readable => exact absurd unreadable readable

/-! ## What is found in a root -/

/-- An unreadable root has an error, and nothing is found in it. -/
theorem explore_of_unreadable (options : WalkOptions) (standing : root.Standing disk)
    (h : root.Unreadable disk) :
    ∃ error, root.explore disk options none = { error := some error } := by
  cases h with
  | missing absent =>
    rw [explore, explorePath, absent]
    exact ⟨_, rfl⟩
  | unsupported there single plain other =>
    simp only [explore, explorePath, there, single, plain, other]
    exact ⟨_, rfl⟩
  | unopened there single archive refused =>
    simp only [explore, explorePath, there, single, archive, archiveLocations, refused]
    exact ⟨_, rfl⟩
  | missingModule source absent =>
    rw [standing _ _ _ rfl source] at absent
    cases absent
  | unopenedModule source refused =>
    simp only [explore, exploreModule, source, packedModuleLocations, refused]
    exact ⟨_, rfl⟩

theorem failures_locations (locations : List Location) :
    (locations.map Finding.location).filterMap Finding.failure? = [] := by
  rw [List.filterMap_map, List.filterMap_eq_nil_iff]
  exact fun _ _ => rfl

theorem failures_itemFindings (directory : Path) (item : WalkItem) :
    (itemFindings disk directory true item).filterMap Finding.failure? =
      (itemFailure? disk item).toList := by
  match item with
  | .fault cause => rfl
  | .visited path false => rfl
  | .visited path true =>
    rw [itemFindings, fileFindings, itemFailure?, archiveLocations]
    by_cases ending : path.isClassFile = true
    · rw [if_pos ending, ending, Bool.true_or, if_pos rfl]
      split <;> rfl
    · by_cases archive : path.isArchive = true
      · simp only [ending, archive]
        cases Archive.openAt disk path with
        | error cause => rfl
        | ok opened => exact failures_locations _
      · simp [ending, archive]

theorem failures_entryFindings (store : Path) (name : String) (directory : Path)
    (item : WalkItem) : (entryFindings store name directory item).filterMap Finding.failure? =
      (entryFailure? name item).toList := by
  cases item with
  | fault cause => rfl
  | visited path isFile =>
    rw [entryFindings, entryFailure?]
    split
    · rfl
    · cases path.componentsBelow? directory <;> rfl

/-- Failures of items, one after the other. -/
theorem failures_flatMap {findings : WalkItem → List Finding}
    {failure? : WalkItem → Option ImportError} {items : List WalkItem}
    (each : ∀ item, (findings item).filterMap Finding.failure? = (failure? item).toList) :
    (items.flatMap findings).filterMap Finding.failure? = items.filterMap failure? := by
  rw [List.filterMap_flatMap, List.filterMap_eq_flatMap_toList]
  exact List.flatMap_congr fun item _ => each item

theorem explore_of_readable_place {path : Path} (readable : ¬ (place path).Unreadable disk) :
    ((place path).explore disk options none).error = none ∧ (place path).Leaves disk options
      (((place path).explore disk options none).findings.filterMap Finding.failure?) := by
  cases there : disk.find path with
  | error fault => exact absurd (.missing there) readable
  | ok tree =>
    cases kind : tree.isDirectory with
    | true =>
      have around : disk.isDirectory path = true := by
        rw [Disk.isDirectory, there]
        exact kind
      obtain ⟨entries, found⟩ := Disk.isDirectory_eq_true_iff.mp around
      rw [explore_place found, packageDirectory, if_pos around]
      refine ⟨rfl, ?_⟩
      show (place path).Leaves disk options (((disk.walk options path).flatMap
        (itemFindings disk path true)).filterMap Finding.failure?)
      rw [failures_flatMap (failures_itemFindings path)]
      exact .directory around
    | false =>
      have plain : disk.isDirectory path = false := by
        rw [Disk.isDirectory, there]
        exact kind
      have quiet : (place path).Leaves disk options [] := .single plain readable
      cases archive : path.isArchive with
      | true =>
        cases opened : Archive.openAt disk path with
        | error cause => exact absurd (.unopened there kind archive opened) readable
        | ok content =>
          simp only [explore, explorePath, there, kind, archive, archiveLocations, opened]
          refine ⟨rfl, ?_⟩
          show (place path).Leaves disk options
            ((List.map Finding.location _).filterMap Finding.failure?)
          rw [failures_locations]
          exact quiet
      | false =>
        cases ending : path.isClassFile with
        | true =>
          simp only [explore, explorePath, there, kind, archive, ending]
          exact ⟨rfl, quiet⟩
        | false => exact absurd (.unsupported there kind archive ending) readable

theorem explore_of_readable_module (named : disk.root.Named) {store : Path} {found : RuntimeModule}
    (readable : ¬ (runtimeModule store found).Unreadable disk) :
    ((runtimeModule store found).explore disk options none).error = none ∧
      (runtimeModule store found).Leaves disk options
        (((runtimeModule store found).explore disk options none).findings.filterMap
          Finding.failure?) := by
  cases source : found.source with
  | exploded directory =>
    cases there : disk.isDirectory directory with
    | false => exact absurd (.missingModule source there) readable
    | true =>
      have inside : ∀ path isFile, .visited path isFile ∈ disk.walk options directory →
          ∃ below, path.componentsBelow? directory = some below := by
        intro path isFile visited
        obtain ⟨below, whole⟩ := Disk.components_of_mem_walk named visited
        exact ⟨below, componentsBelow?_eq_some_iff.mpr whole⟩
      rw [explore_exploded source, packageDirectory, if_pos there, moduleFindings_eq inside]
      refine ⟨rfl, ?_⟩
      rw [failures_flatMap (failures_entryFindings store found.name directory)]
      exact .exploded source there
  | packed archive =>
    cases opened : Archive.openAt disk archive with
    | error cause => exact absurd (.unopenedModule source opened) readable
    | ok content =>
      simp only [explore, exploreModule, source, packedModuleLocations, opened]
      refine ⟨rfl, ?_⟩
      show (runtimeModule store found).Leaves disk options
        ((List.map Finding.location _).filterMap Finding.failure?)
      rw [failures_locations]
      exact .packed source readable

/-- A readable root has no error of its own. -/
theorem explore_of_readable (options : WalkOptions) (named : disk.root.Named)
    (readable : ¬ root.Unreadable disk) :
    (root.explore disk options none).error = none ∧ root.Leaves disk options
      ((root.explore disk options none).findings.filterMap Finding.failure?) := by
  cases root with
  | place path => exact explore_of_readable_place readable
  | runtimeModule store found => exact explore_of_readable_module named readable

end Root

/-! ## Targets -/

namespace Target

variable {disk : Disk} (options : WalkOptions) {target : Target}

/-- All of a root is looked for, and the root is there if it is a module that is kept in a
directory. -/
structure Sound (disk : Disk) (target : Target) : Prop where
  whole : target.package? = none
  standing : target.root.Standing disk

theorem explore_of_unreadable (sound : target.Sound disk) (h : target.root.Unreadable disk) :
    ∃ error, target.explore disk options = { error := some error } := by
  rw [explore, sound.whole]
  exact Root.explore_of_unreadable options sound.standing h

theorem error_isSome_iff (named : disk.root.Named) (sound : target.Sound disk) :
    (target.explore disk options).error.isSome = true ↔ target.root.Unreadable disk := by
  constructor
  · intro failed
    by_contra readable
    rw [explore, sound.whole, (Root.explore_of_readable options named readable).1] at failed
    cases failed
  · intro unreadable
    obtain ⟨error, refused⟩ := explore_of_unreadable options sound unreadable
    rw [refused]
    rfl

theorem findings_of_readable (named : disk.root.Named) (sound : target.Sound disk)
    (readable : ¬ target.root.Unreadable disk) : target.findings disk options =
      (target.root.explore disk options none).findings := by
  have fine := (Root.explore_of_readable options named readable).1
  rw [findings, explore, sound.whole, fine, Option.toList_none, List.map_nil, List.append_nil]

theorem leaves (named : disk.root.Named) (sound : target.Sound disk) :
    target.root.Leaves disk options
      ((target.findings disk options).filterMap Finding.failure?) := by
  by_cases unreadable : target.root.Unreadable disk
  · obtain ⟨error, refused⟩ := explore_of_unreadable options sound unreadable
    rw [findings, refused]
    refine .unreadable unreadable ?_
    rw [explore, sound.whole] at refused
    rw [refused]
  · rw [findings_of_readable options named sound unreadable]
    exact (Root.explore_of_readable options named unreadable).2

/-- No location is found in an unreadable root. -/
theorem foundLocations_of_unreadable (sound : target.Sound disk)
    (h : target.root.Unreadable disk) : foundLocations (target.findings disk options) = [] := by
  obtain ⟨error, refused⟩ := explore_of_unreadable options sound h
  rw [findings, refused]
  rfl

end Target

end ClassAtlas
