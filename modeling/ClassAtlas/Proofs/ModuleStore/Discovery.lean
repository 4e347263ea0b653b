import ClassAtlas.Proofs.ClassGraph.Firsts
import ClassAtlas.Proofs.Disk.Following
import ClassAtlas.Proofs.Disk.Ordered
import ClassAtlas.Proofs.Explore.Packaged
import ClassAtlas.Proofs.Explore.Repeats
import ClassAtlas.Proofs.Explore.Unreadable

/-!
# Modules of an installation

A module is there as a directory (`Exploded`) or as an archive (`Packs`). What is found in the two
places is one list, the directories in front, and the first of each name is taken
(`chosen_of_find`). So an installation has one module of each name that is there, from its
directory if it has one (`discovered`), and what is looked for in accepted modules is found module
by module.
-/

namespace ClassAtlas

namespace ModuleStore

variable {disk : Disk} {root directory : Path} {name : String} {archive : Path}

/-- The module has a directory. -/
structure Exploded (disk : Disk) (root : Path) (name : String) : Prop where
  named : Path.FileName name
  there : disk.isDirectory ((root.join ⟨"modules"⟩).join ⟨name⟩) = true

/-- The archive is one of the module. -/
structure Packs (disk : Disk) (root : Path) (name : String) (archive : Path) : Prop where
  child : ∃ archives, disk.children (root.join ⟨"jmods"⟩) = .ok archives ∧ archive ∈ archives
  stem : archive.stem? = some name
  ending : archive.hasExtension "jmod" = true

/-! ## The two places -/

theorem mem_listed {path : Path} : path ∈ listed disk directory ↔
    ∃ children, disk.children directory = .ok children ∧ path ∈ children := by
  unfold listed
  cases disk.children directory with
  | error fault => simp [Except.toOption]
  | ok children => simp [Except.toOption]

theorem mem_exploded (named : disk.root.Named) {found : RuntimeModule} :
    found ∈ exploded disk root ↔ Exploded disk root found.name ∧
      found.source = .exploded ((root.join ⟨"modules"⟩).join ⟨found.name⟩) := by
  constructor
  · intro inside
    obtain ⟨path, there, given⟩ := List.mem_filterMap.mp inside
    obtain ⟨children, listing, child⟩ := mem_listed.mp there
    obtain ⟨entries, directory, member⟩ := Disk.children_eq_ok listing
    obtain ⟨entry, own, rfl⟩ := (member path).mp child
    have fileName := (FileTree.named_of_mem (Disk.named_of_find named directory) own).1
    obtain ⟨isDirectory, called, source⟩ := explodedModule?_eq_some_iff.mp given
    rw [Path.fileName?_join_name (Disk.isEmpty_of_find directory) fileName] at called
    rw [Option.some.inj called] at fileName isDirectory source
    exact ⟨⟨fileName, isDirectory⟩, source⟩
  · rintro ⟨⟨fileName, isDirectory⟩, source⟩
    have start : (root.join ⟨"modules"⟩).isEmpty = false := Path.isEmpty_join_name (by decide)
    obtain ⟨_, there⟩ := Disk.isDirectory_eq_true_iff.mp isDirectory
    obtain ⟨entries, child, directory, own⟩ := Disk.exists_entry_of_find_join start fileName there
    obtain ⟨children, listing, inside⟩ :=
      Disk.child_of_entry directory (FileTree.mem_of_lookup own)
    have called := Path.fileName?_join_name start fileName
    exact List.mem_filterMap.mpr ⟨_, mem_listed.mpr ⟨children, listing, inside⟩,
      explodedModule?_eq_some_iff.mpr ⟨isDirectory, called, source⟩⟩

theorem mem_packed {found : RuntimeModule} : found ∈ packed disk root ↔
    ∃ archive, Packs disk root found.name archive ∧ found.source = .packed archive := by
  constructor
  · intro inside
    obtain ⟨path, there, given⟩ := List.mem_filterMap.mp inside
    obtain ⟨ending, stem, source⟩ := packedModule?_eq_some_iff.mp given
    exact ⟨path, ⟨mem_listed.mp there, stem, ending⟩, source⟩
  · rintro ⟨archive, ⟨child, stem, ending⟩, source⟩
    exact List.mem_filterMap.mpr ⟨archive, mem_listed.mpr child,
      packedModule?_eq_some_iff.mpr ⟨ending, stem, source⟩⟩

/-- The modules in archives are in the order of the archives. -/
theorem pairwise_packed (named : disk.root.Named) :
    (packed disk root).Pairwise fun one other => one.source.path.le other.source.path = true := by
  have sorted : (listed disk (root.join ⟨"jmods"⟩)).Pairwise fun one other =>
      one.le other = true := by
    unfold listed
    cases listing : disk.children (root.join ⟨"jmods"⟩) with
    | error fault => exact List.Pairwise.nil
    | ok children => exact Disk.pairwise_children named listing
  have path : ∀ {archive found}, packedModule? archive = some found →
      found.source.path = archive := by
    intro archive found given
    rw [(packedModule?_eq_some_iff.mp given).2.2, ModuleSource.path]
  refine sorted.filterMap _ fun one other le found given found' given' => ?_
  rw [path given, path given']
  exact le

/-! ## The first of each name -/

/-- How a module of an installation comes from what is there under its name. -/
inductive Chosen (disk : Disk) (root : Path) (name : String) : ModuleSource → Prop
  | exploded (there : Exploded disk root name) :
    Chosen disk root name (.exploded ((root.join ⟨"modules"⟩).join ⟨name⟩))
  | packed {archive : Path} (unexploded : ¬ Exploded disk root name)
      (there : Packs disk root name archive)
      (first : ∀ other, Packs disk root name other → archive.le other = true) :
    Chosen disk root name (.packed archive)

theorem chosen_of_find (named : disk.root.Named) {found : RuntimeModule}
    (h : (candidates disk root).find? (·.name = name) = some found) :
    found.name = name ∧ Chosen disk root name found.source := by
  have own : found.name = name := by simpa using List.find?_some h
  refine ⟨own, ?_⟩
  rw [candidates, List.find?_append] at h
  cases front : (exploded disk root).find? (·.name = name) with
  | some first =>
    rw [front, Option.some_or] at h
    cases h
    obtain ⟨there, source⟩ := (mem_exploded named).mp (List.mem_of_find?_eq_some front)
    rw [source, own]
    exact .exploded (own ▸ there)
  | none =>
    rw [front, Option.none_or] at h
    obtain ⟨_, before, behind, split, others⟩ := List.find?_eq_some_iff_append.mp h
    obtain ⟨archive, packs, source⟩ := mem_packed.mp (List.mem_of_find?_eq_some h)
    rw [source]
    refine .packed ?_ (own ▸ packs) ?_
    · intro there
      have inside : ⟨name, .exploded ((root.join ⟨"modules"⟩).join ⟨name⟩)⟩ ∈ exploded disk root :=
        (mem_exploded named).mpr ⟨there, rfl⟩
      exact List.find?_eq_none.mp front _ inside (decide_eq_true rfl)
    · intro other packs'
      have inside : ⟨name, .packed other⟩ ∈ packed disk root := mem_packed.mpr ⟨other, packs', rfl⟩
      have sorted : (packed disk root).Pairwise fun one other =>
          one.source.path.le other.source.path = true := pairwise_packed named
      rw [split] at inside sorted
      rcases List.mem_append.mp inside with early | late
      · simpa using others _ early
      · rcases List.mem_cons.mp late with same | late
        · cases same
          cases source
          exact (Path.le_total _ _).elim id id
        · have behind := (List.pairwise_cons.mp (List.pairwise_append.mp sorted).2.1).1 _ late
          rw [source] at behind
          exact behind

theorem exists_candidate_iff (named : disk.root.Named) :
    (∃ found ∈ candidates disk root, found.name = name) ↔
      Exploded disk root name ∨ ∃ archive, Packs disk root name archive := by
  constructor
  · rintro ⟨found, inside, rfl⟩
    rcases List.mem_append.mp inside with front | behind
    · exact .inl ((mem_exploded named).mp front).1
    · obtain ⟨archive, packs, _⟩ := mem_packed.mp behind
      exact .inr ⟨archive, packs⟩
  · rintro (there | ⟨archive, packs⟩)
    · have inside : ⟨name, .exploded ((root.join ⟨"modules"⟩).join ⟨name⟩)⟩ ∈ exploded disk root :=
        (mem_exploded named).mpr ⟨there, rfl⟩
      exact ⟨_, List.mem_append_left _ inside, rfl⟩
    · have inside : ⟨name, .packed archive⟩ ∈ packed disk root :=
        mem_packed.mpr ⟨archive, packs, rfl⟩
      exact ⟨_, List.mem_append_right _ inside, rfl⟩

/-- The modules of an installation are those that are there. -/
structure Discovered (disk : Disk) (root : Path) (store : ModuleStore) : Prop where
  own : store.root = root
  increasing : (store.modules.map RuntimeModule.name).Pairwise (· < ·)
  present : ∀ name, (∃ found ∈ store.modules, found.name = name) ↔
    Exploded disk root name ∨ ∃ archive, Packs disk root name archive
  source : ∀ found ∈ store.modules, Chosen disk root found.name found.source

theorem discovered_of_discover (named : disk.root.Named) (there : disk.isDirectory root = true)
    {store : ModuleStore} (h : discover disk root = .ok store) : Discovered disk root store := by
  rw [discover_eq there] at h
  cases h
  constructor
  · rfl
  · exact List.pairwise_map.mpr (pairwise_lt_mergeSort _ (nodup_map_firsts _ _))
  · intro name
    rw [← exists_candidate_iff named]
    constructor
    · rintro ⟨found, inside, own⟩
      exact ⟨found, mem_of_mem_firsts _ (List.mem_mergeSort.mp inside), own⟩
    · rintro ⟨found, inside, rfl⟩
      obtain ⟨first, kept, same⟩ := exists_mem_firsts RuntimeModule.name inside
      exact ⟨first, List.mem_mergeSort.mpr kept, same⟩
  · intro found inside
    exact (chosen_of_find named ((mem_firsts _).mp (List.mem_mergeSort.mp inside))).2

/-! ## Locations in modules -/

variable {store : ModuleStore} {explorer : Explorer} {modules : ModuleFilter}

/-- What is found in a module belongs to it. -/
theorem module_of_gives {found : RuntimeModule} {location : Location}
    (h : (Root.runtimeModule store.root found).Gives location) :
    location.module? = some found.name := by
  cases h <;> rfl

/-- No two modules have a class of one URI. -/
theorem eq_of_uri (regular : store.Regular) {found other : RuntimeModule}
    (there : found ∈ store.modules) (there' : other ∈ store.modules) {one another : Location}
    (gives : (Root.runtimeModule store.root found).Gives one)
    (gives' : (Root.runtimeModule store.root other).Gives another) (same : one.uri = another.uri) :
    found = other := by
  have clean := Root.Regular.clean (regular.roots found there)
  have clean' := Root.Regular.clean (regular.roots other there')
  have named : found.name = other.name := by
    cases gives <;> cases gives' <;> exact (moduleEntry_injective clean clean' same).1
  exact List.inj_on_of_nodup_map regular.names there there' named

/-- What is enumerated of accepted modules. -/
structure Enumerates (explorer : Explorer) (disk : Disk) (store : ModuleStore)
    (modules : ModuleFilter) (all : Enumeration) : Prop where
  /-- Every location is one of an accepted module. -/
  accepted : ∀ location ∈ all.locations, ∃ found ∈ store.modules,
    modules.includes found.name = true ∧ (Root.runtimeModule store.root found).Gives location
  /-- One module after the other, by name. -/
  grouped : (all.locations.filterMap Location.module?).Pairwise (· ≤ ·)
  /-- Nothing else is left out than what the filters drop and what is kept under its URI. -/
  whole : ∀ found ∈ store.modules, modules.includes found.name = true → ∀ location,
    .location location ∈
      ((Root.runtimeModule store.root found).explore disk explorer.walk none).findings →
    explorer.filters.includes location = true → ∃ kept ∈ all.locations, kept.uri = location.uri
  /-- No two modules of the store have a class of one URI. -/
  apart : ∀ found ∈ store.modules, ∀ other ∈ store.modules, ∀ one another,
    (Root.runtimeModule store.root found).Gives one →
    (Root.runtimeModule store.root other).Gives another → one.uri = another.uri → found = other

theorem pairwise_findings (regular : store.Regular)
    (increasing : (store.modules.map RuntimeModule.name).Pairwise (· < ·)) (disk : Disk)
    (options : WalkOptions) (modules : ModuleFilter) :
    ((foundLocations ((Search.runtimeModules store modules).findings options disk)).filterMap
      Location.module?).Pairwise (· ≤ ·) := by
  have own : ∀ found ∈ store.modules, ∀ finding ∈
      ({ root := .runtimeModule store.root found } : Target).findings disk options,
      ∀ location, finding.location? = some location → location.module? = some found.name := by
    intro found there finding inside location is
    cases finding with
    | failure => cases is
    | location other =>
      cases is
      rcases List.mem_append.mp inside with explored | error
      · exact module_of_gives (Root.gives_explore (regular.roots found there) none _ explored)
      · obtain ⟨_, _, other⟩ := List.mem_map.mp error
        cases other
  rw [foundLocations, List.pairwise_filterMap, List.pairwise_filterMap, Search.findings,
    List.pairwise_flatMap, Search.targets, targets]
  constructor
  · intro target inside
    obtain ⟨found, there, rfl⟩ := List.mem_map.mp inside
    refine List.pairwise_of_forall_mem_list fun one inside other inside' => ?_
    intro location is location' is' name called name' called'
    have tells := own found (List.mem_of_mem_filter there)
    rw [tells one inside location is] at called
    rw [tells other inside' location' is'] at called'
    cases called
    cases called'
    exact String.le_refl _
  · rw [List.pairwise_map]
    have sorted := (List.pairwise_map.mp increasing).sublist (List.filter_sublist
      (p := fun found : RuntimeModule => modules.includes found.name))
    refine sorted.imp_of_mem fun {found other} there there' less => ?_
    intro one inside another inside' location is location' is' name called name' called'
    rw [own found (List.mem_of_mem_filter there) one inside location is] at called
    rw [own other (List.mem_of_mem_filter there') another inside' location' is'] at called'
    cases called
    cases called'
    exact Std.le_of_lt less

theorem enumerates (regular : store.Regular)
    (increasing : (store.modules.map RuntimeModule.name).Pairwise (· < ·)) {all : Enumeration}
    (h : explorer.runtimeModules disk store modules = .ok all) :
    Enumerates explorer disk store modules all := by
  have run : (Search.runtimeModules store modules).run explorer disk = .ok all := h
  constructor
  · intro location kept
    obtain ⟨_, target, inside, found⟩ := Search.exists_target_of_kept run kept
    obtain ⟨module, there, rfl⟩ := List.mem_map.mp inside
    obtain ⟨there, accepted⟩ := List.mem_filter.mp there
    exact ⟨module, there, accepted, Root.gives_explore (regular.roots module there) none _ found⟩
  · rw [Search.eq_of_run run, locations_ofFindings]
    refine (pairwise_findings regular increasing disk explorer.walk modules).sublist ?_
    exact ((firsts_sublist _ _).trans List.filter_sublist).filterMap _
  · intro found there accepted location inside included
    have target : { root := .runtimeModule store.root found } ∈ store.targets modules none :=
      List.mem_map_of_mem (List.mem_filter.mpr ⟨there, accepted⟩)
    refine Search.exists_kept_of_found run target inside ?_
    rw [Search.ownFilters, List.append_nil]
    exact included
  · exact fun found there other there' one another => eq_of_uri regular there there'

/-- The modules of an installation, each from its directory if it has one, and what is enumerated of
them. -/
theorem discovered (named : disk.root.Named) (there : disk.isDirectory root = true) :
    ∃ store, discover disk root = .ok store ∧ Discovered disk root store ∧
      ∀ explorer modules all, explorer.runtimeModules disk store modules = .ok all →
        Enumerates explorer disk store modules all := by
  have found := discover_eq there
  have is := discovered_of_discover named there found
  exact ⟨_, found, is, fun _ _ _ run => enumerates (regular_discover found) is.increasing run⟩

/-- One module is there in both forms, the other in an archive that does not open. -/
def installedDisk : Disk where
  root := .directory [("java", .directory [
    ("jmods", .directory [("m.jmod", .file []), ("n.JMOD", .file [])]),
    ("modules", .directory [("m", .directory [("A.class", .file [])])])])]
  workingDirectory := ⟨"/"⟩

def installedStore : ModuleStore where
  root := ⟨"/java"⟩
  modules := [{ name := "m", source := .exploded ⟨"/java/modules/m"⟩ },
    { name := "n", source := .packed ⟨"/java/jmods/n.JMOD"⟩ }]
  hasImage := false

theorem plain_installedDisk : installedDisk.root.Plain := by
  simp only [installedDisk, FileTree.Plain, FileTree.PlainAll, and_true]
  decide

theorem isDirectory_installedDisk : installedDisk.isDirectory ⟨"/java"⟩ = true ∧
    installedDisk.isDirectory ⟨"/java/modules/m"⟩ = true := by
  rw [Disk.isDirectory, Disk.find_eq plain_installedDisk, Disk.isDirectory,
    Disk.find_eq plain_installedDisk]
  exact ⟨rfl, rfl⟩

theorem discover_installedDisk : discover installedDisk ⟨"/java"⟩ = .ok installedStore := by
  have modules : installedDisk.find ⟨"/java/modules"⟩ =
      .ok (.directory [("m", .directory [("A.class", .file [])])]) := by
    rw [Disk.find_eq plain_installedDisk]
    rfl
  have jmods : installedDisk.find ⟨"/java/jmods"⟩ =
      .ok (.directory [("m.jmod", .file []), ("n.JMOD", .file [])]) := by
    rw [Disk.find_eq plain_installedDisk]
    rfl
  have image : installedDisk.isFile ⟨"/java/lib/modules"⟩ = false := by
    rw [Disk.isFile, Disk.find_eq plain_installedDisk]
    rfl
  have joined : Path.join ⟨"/java"⟩ ⟨"modules"⟩ = ⟨"/java/modules"⟩ ∧
      Path.join ⟨"/java"⟩ ⟨"jmods"⟩ = ⟨"/java/jmods"⟩ ∧
      Path.join ⟨"/java"⟩ imagePlace = ⟨"/java/lib/modules"⟩ := by decide
  have directories : listed installedDisk ⟨"/java/modules"⟩ = [⟨"/java/modules/m"⟩] := by
    rw [listed, Disk.children_of_single modules]
    rfl
  have archives : listed installedDisk ⟨"/java/jmods"⟩ =
      [⟨"/java/jmods/m.jmod"⟩, ⟨"/java/jmods/n.JMOD"⟩] := by
    rw [listed, Disk.children, jmods]
    show (["m.jmod", "n.JMOD"].mergeSort _).map _ = _
    rw [List.mergeSort_of_pairwise (by decide)]
    rfl
  have all : candidates installedDisk ⟨"/java"⟩ =
      [⟨"m", .exploded ⟨"/java/modules/m"⟩⟩, ⟨"m", .packed ⟨"/java/jmods/m.jmod"⟩⟩,
        ⟨"n", .packed ⟨"/java/jmods/n.JMOD"⟩⟩] := by
    have m : explodedModule? installedDisk ⟨"/java/modules/m"⟩ =
        some ⟨"m", .exploded ⟨"/java/modules/m"⟩⟩ :=
      explodedModule?_eq_some_iff.mpr ⟨isDirectory_installedDisk.2, by decide, rfl⟩
    rw [candidates, exploded, packed, joined.1, joined.2.1, directories, archives,
      List.filterMap_cons, m]
    decide
  rw [discover_eq isDirectory_installedDisk.1, all, joined.2.2, image]
  have kept : firsts RuntimeModule.name [⟨"m", .exploded ⟨"/java/modules/m"⟩⟩,
      ⟨"m", .packed ⟨"/java/jmods/m.jmod"⟩⟩, ⟨"n", .packed ⟨"/java/jmods/n.JMOD"⟩⟩] =
      installedStore.modules := by decide
  rw [kept, List.mergeSort_of_pairwise (by decide)]
  rfl

/-- The module that is there in both forms. -/
def installedModule : RuntimeModule := { name := "m", source := .exploded ⟨"/java/modules/m"⟩ }

/-- Its class is listed. -/
theorem exists_explored_installedDisk :
    ∃ location, .location location ∈
        ((Root.runtimeModule ⟨"/java"⟩ installedModule).explore installedDisk {} none).findings ∧
      location.uri = "jrt:/m/A.class" := by
  have directory : installedDisk.find ⟨"/java/modules/m"⟩ =
      .ok (.directory [("A.class", .file [])]) := by
    rw [Disk.find_eq plain_installedDisk]
    rfl
  have file : installedDisk.find ⟨"/java/modules/m/A.class"⟩ = .ok (.file []) := by
    rw [Disk.find_eq plain_installedDisk]
    rfl
  have reached : installedDisk.Reaches 1 ⟨"/java/modules/m"⟩ ⟨"/java/modules/m/A.class"⟩ :=
    .down (Disk.children_of_single directory) (List.mem_singleton.mpr (by decide)) (.here _)
  have few : ∀ limit, WalkOptions.maxDepth {} = some limit → 1 ≤ limit := nofun
  have split : Path.componentsBelow? ⟨"/java/modules/m/A.class"⟩ ⟨"/java/modules/m"⟩ =
      some [.name "A.class"] := by decide
  have is : (Root.runtimeModule ⟨"/java"⟩ installedModule).IsDirectory ⟨"/java/modules/m"⟩ :=
    .exploded rfl
  have found := Root.mem_explore_of_class plain_installedDisk is isDirectory_installedDisk.2
    reached few ⟨by decide, by decide, _, file, rfl⟩ (.entry rfl split)
  exact ⟨_, found.2, by decide⟩

theorem discovered_installedDisk : installedDisk.root.Named ∧
    installedDisk.isDirectory ⟨"/java"⟩ = true ∧
    discover installedDisk ⟨"/java"⟩ = .ok installedStore ∧
    Discovered installedDisk ⟨"/java"⟩ installedStore ∧
    ∃ all, ({} : Explorer).runtimeModules installedDisk installedStore (.only ["m", "n"]) =
        .ok all ∧
      Enumerates {} installedDisk installedStore (.only ["m", "n"]) all ∧
      ∃ location ∈ all.locations, location.uri = "jrt:/m/A.class" := by
  have named : installedDisk.root.Named := by
    simp only [installedDisk, FileTree.Named, FileTree.NamedAll, and_true]
    decide
  obtain ⟨store, found, is, enumerates⟩ := discovered named isDirectory_installedDisk.1
  obtain rfl : installedStore = store := Except.ok.inj (discover_installedDisk.symm.trans found)
  have readable : ¬ (Root.runtimeModule ⟨"/java"⟩ installedModule).Unreadable installedDisk :=
    Root.not_unreadable_of_exploded rfl isDirectory_installedDisk.2
  obtain ⟨all, run⟩ : ∃ all, (Search.runtimeModules installedStore (.only ["m", "n"])).run {}
      installedDisk = .ok all :=
    Search.exists_run_of_target List.mem_cons_self
      (Root.explore_of_readable_module named readable).1
  have each := enumerates _ _ _ run
  obtain ⟨location, listed, uri⟩ := exists_explored_installedDisk
  obtain ⟨kept, inside, same⟩ := each.whole installedModule List.mem_cons_self (by decide) location
    listed rfl
  exact ⟨named, isDirectory_installedDisk.1, found, is, all, run, each, kept, inside,
    same.trans uri⟩

end ModuleStore

end ClassAtlas
