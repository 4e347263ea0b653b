import ClassAtlas.Explorer
import ClassAtlas.Proofs.Import.Failures
import ClassAtlas.Proofs.Import.Kept

/-!
# Searches

The ways to look for class files, as one. Each of them enumerates targets that do not depend on the
filters (`Search.run_eq`), so that no filter decides whether a search fails (`Search.Fails`). What
the targets can be is said once (`Search.Covers`).
-/

namespace ClassAtlas

/-- What an explorer can be asked for. -/
inductive Search where
  | roots (paths : List Path)
  | entireClasspath (classpath : Classpath) (store? : Option ModuleStore)
  | looseClasspath (classpath : Classpath) (store? : Option ModuleStore)
  | packages (classpath : Classpath) (store? : Option ModuleStore) (names : List String)
  | runtimeModules (store : ModuleStore) (modules : ModuleFilter)

namespace Search

def run (explorer : Explorer) (disk : Disk) : Search → Except ImportError Enumeration
  | roots paths => explorer.roots disk paths
  | entireClasspath classpath store? => explorer.entireClasspath disk classpath store?
  | looseClasspath classpath store? => explorer.looseClasspath disk classpath store?
  | packages classpath store? names => explorer.packages disk classpath store? names
  | runtimeModules store modules => explorer.runtimeModules disk store modules

/-- Where the search looks. -/
def targets (disk : Disk) : Search → List Target
  | roots paths =>
    paths.map fun path => { root := .place (Path.absolute disk.workingDirectory path) }
  | entireClasspath classpath store? | looseClasspath classpath store? =>
    classpath.targets none ++ store?.toList.flatMap (·.targets .all none)
  | packages classpath store? names => names.flatMap fun name =>
    classpath.targets (some (packagePrefix name)) ++
      store?.toList.flatMap (·.targets .all (some (packagePrefix name)))
  | runtimeModules store modules => store.targets modules none

/-- What the search says it was asked for. -/
def requested : Search → String
  | roots paths =>
    if paths.isEmpty then "an empty list of roots"
    else String.intercalate ", " (paths.map Path.text)
  | entireClasspath _ _ | looseClasspath _ _ => "the classpath"
  | packages _ _ names => "packages [" ++ String.intercalate ", " names ++ "]"
  | runtimeModules store _ => store.describe

/-- The filter that the search has of its own. -/
def ownFilters : Search → Filters
  | looseClasspath _ _ => [.noArchives]
  | roots _ | entireClasspath _ _ | packages _ _ _ | runtimeModules _ _ => []

theorem run_eq (search : Search) (explorer : Explorer) (disk : Disk) :
    search.run explorer disk =
      ({ explorer with filters := explorer.filters ++ search.ownFilters } : Explorer).enumerate disk
        (search.targets disk) search.requested := by
  cases search with
  | looseClasspath => rfl
  | roots | entireClasspath | packages | runtimeModules =>
    rw [ownFilters, List.append_nil]
    rfl

/-! ## Where a search looks -/

/-- The class path that is looked through. -/
def classpath? : Search → Option Classpath
  | entireClasspath classpath _ | looseClasspath classpath _ | packages classpath _ _ =>
    some classpath
  | roots _ | runtimeModules _ _ => none

/-- The module store that is looked through. -/
def store? : Search → Option ModuleStore
  | entireClasspath _ store? | looseClasspath _ store? | packages _ store? _ => store?
  | runtimeModules store _ => some store
  | roots _ => none

/-- A root of the class path, or a module of the store. -/
inductive IsRoot (classpath : Classpath) (store? : Option ModuleStore) : Root → Prop
  | place {path : Path} (there : path ∈ classpath.roots) : IsRoot classpath store? (.place path)
  | runtimeModule {store : ModuleStore} {found : RuntimeModule} (is : store? = some store)
    (there : found ∈ store.modules) : IsRoot classpath store? (.runtimeModule store.root found)

section Targets

variable {classpath : Classpath} {store? : Option ModuleStore} {disk : Disk} {target : Target}

theorem mem_targets_iff {package? : Option String} :
    target ∈ classpath.targets package? ++ store?.toList.flatMap (·.targets .all package?) ↔
      ∃ root, IsRoot classpath store? root ∧ target = { root, package? } := by
  rw [List.mem_append]
  constructor
  · rintro (inside | inside)
    · obtain ⟨path, there, rfl⟩ := List.mem_map.mp inside
      exact ⟨_, .place there, rfl⟩
    · obtain ⟨store, given, inside⟩ := List.mem_flatMap.mp inside
      obtain ⟨found, there, rfl⟩ := List.mem_map.mp inside
      exact ⟨_, .runtimeModule (Option.mem_toList.mp given) (List.mem_of_mem_filter there), rfl⟩
  · rintro ⟨root, is, rfl⟩
    cases is with
    | place there => exact .inl (List.mem_map_of_mem there)
    | @runtimeModule store found given there =>
      have searched : { root := .runtimeModule store.root found, package? } ∈
          store.targets .all package? :=
        List.mem_map_of_mem (List.mem_filter.mpr ⟨there, rfl⟩)
      exact .inr (List.mem_flatMap.mpr ⟨_, Option.mem_toList.mpr given, searched⟩)

theorem mem_targets_packages_iff {names : List String} :
    target ∈ (packages classpath store? names).targets disk ↔
      ∃ name ∈ names, ∃ root, IsRoot classpath store? root ∧
        target = { root, package? := some (packagePrefix name) } := by
  simp only [targets, List.mem_flatMap, mem_targets_iff]

end Targets

/-- What the search takes of a root: all of it, or one of the packages that it is for. -/
def Takes : Search → Option String → Prop
  | packages _ _ names, package? => ∃ name ∈ names, package? = some (packagePrefix name)
  | roots _, package? | entireClasspath _ _, package? | looseClasspath _ _, package?
  | runtimeModules _ _, package? => package? = none

/-- A target is a path that is asked for, or what is taken of a root of the class path or of a
module of the store. -/
inductive Covers (disk : Disk) (search : Search) : Target → Prop
  | path {paths : List Path} {path : Path} (is : search = roots paths) (asked : path ∈ paths) :
    Covers disk search { root := .place (Path.absolute disk.workingDirectory path) }
  | place {classpath : Classpath} {path : Path} {package? : Option String}
    (is : search.classpath? = some classpath) (there : path ∈ classpath.roots)
    (takes : search.Takes package?) : Covers disk search { root := .place path, package? }
  | runtimeModule {store : ModuleStore} {found : RuntimeModule} {package? : Option String}
    (is : search.store? = some store) (there : found ∈ store.modules)
    (takes : search.Takes package?) :
    Covers disk search { root := .runtimeModule store.root found, package? }

theorem IsRoot.covers {search : Search} {classpath : Classpath} {store? : Option ModuleStore}
    {root : Root} (h : IsRoot classpath store? root) (disk : Disk)
    (own : search.classpath? = some classpath) (own' : search.store? = store?)
    {package? : Option String} (takes : search.Takes package?) :
    search.Covers disk { root, package? } := by
  cases h with
  | place there => exact .place own there takes
  | runtimeModule is there => exact .runtimeModule (own'.trans is) there takes

theorem covers_of_mem_targets {search : Search} {disk : Disk} {target : Target}
    (h : target ∈ search.targets disk) : search.Covers disk target := by
  cases search with
  | roots paths =>
    obtain ⟨path, asked, rfl⟩ := List.mem_map.mp h
    exact .path rfl asked
  | entireClasspath classpath store? | looseClasspath classpath store? =>
    obtain ⟨root, is, rfl⟩ := mem_targets_iff.mp h
    exact is.covers disk rfl rfl rfl
  | packages classpath store? names =>
    obtain ⟨name, asked, root, is, rfl⟩ := mem_targets_packages_iff.mp h
    exact is.covers disk rfl rfl ⟨name, asked, rfl⟩
  | runtimeModules store modules =>
    obtain ⟨found, there, rfl⟩ := List.mem_map.mp h
    exact .runtimeModule rfl (List.mem_of_mem_filter there) rfl

/-! ## What a search gives -/

/-- All that the search comes upon, locations and failures. -/
def findings (options : WalkOptions) (disk : Disk) (search : Search) : List Finding :=
  (search.targets disk).flatMap (·.findings disk options)

/-- No target of the search can be read. -/
def Fails (options : WalkOptions) (disk : Disk) (search : Search) : Prop :=
  ∀ target ∈ search.targets disk, (target.explore disk options).error.isSome = true

variable {search : Search} {explorer : Explorer} {disk : Disk}

theorem run_of_fails (fails : search.Fails explorer.walk disk) :
    search.run explorer disk = .error (.nothingImportable search.requested) := by
  rw [run_eq, Explorer.enumerate, if_pos (List.all_eq_true.mpr fails)]

theorem run_of_not_fails (reads : ¬ search.Fails explorer.walk disk) :
    search.run explorer disk = .ok (.ofFindings (explorer.filters ++ search.ownFilters)
      (search.findings explorer.walk disk)) := by
  rw [run_eq, Explorer.enumerate, if_neg (mt List.all_eq_true.mp reads)]
  rfl

/-- A search that gives something gives what its targets hold. -/
theorem eq_of_run {all : Enumeration} (h : search.run explorer disk = .ok all) :
    all = .ofFindings (explorer.filters ++ search.ownFilters)
      (search.findings explorer.walk disk) := by
  rw [run_eq] at h
  exact Explorer.enumerate_eq_ok h

/-- A location is found in a target, and not in the error that the target has. -/
theorem exists_target_of_mem {options : WalkOptions} {found : Location}
    (h : .location found ∈ search.findings options disk) :
    ∃ target ∈ search.targets disk, .location found ∈ (target.explore disk options).findings := by
  obtain ⟨target, there, inside⟩ := List.mem_flatMap.mp h
  rcases List.mem_append.mp inside with explored | own
  · exact ⟨target, there, explored⟩
  · obtain ⟨error, _, same⟩ := List.mem_map.mp own
    cases same

end Search

/-! ## Single class files -/

theorem Target.explore_classFile {disk : Disk} {path : Path} {tree : FileTree}
    (found : disk.find path = .ok tree) (single : tree.isDirectory = false)
    (plain : path.isArchive = false) (named : path.isClassFile = true) (options : WalkOptions) :
    ({ root := .place path } : Target).explore disk options =
      { findings := [.location (.file (path.parent?.getD ⟨""⟩) path)] } := by
  show Root.explorePath disk options path none = _
  rw [Root.explorePath, found]
  simp only [single, plain, named]
  rfl

/-- A class file that the disk has where the path says. -/
structure ClassFileAt (disk : Disk) (path : Path) : Prop where
  absolute : Path.absolute disk.workingDirectory path = path
  plain : path.isArchive = false
  named : path.isClassFile = true
  found : ∃ bytes, disk.find path = .ok (.file bytes)

namespace Search

variable {disk : Disk} {paths : List Path}

theorem targets_classFiles (each : ∀ path ∈ paths, ClassFileAt disk path) :
    (roots paths).targets disk = paths.map fun path => { root := .place path } := by
  refine List.map_congr_left fun path inside => ?_
  rw [(each path inside).absolute]

theorem explore_classFiles (options : WalkOptions) (each : ∀ path ∈ paths, ClassFileAt disk path) :
    ∀ path ∈ paths, ({ root := .place path } : Target).explore disk options =
      { findings := [.location (.file (path.parent?.getD ⟨""⟩) path)] } := by
  intro path inside
  obtain ⟨bytes, found⟩ := (each path inside).found
  exact Target.explore_classFile found rfl (each path inside).plain (each path inside).named _

/-- Class files that are asked for one by one are found in that order. -/
theorem findings_classFiles (options : WalkOptions) (each : ∀ path ∈ paths, ClassFileAt disk path) :
    (roots paths).findings options disk =
      paths.map fun path => .location (.file (path.parent?.getD ⟨""⟩) path) := by
  rw [findings, targets_classFiles each, List.flatMap_map, ← List.flatMap_singleton' (List.map _ _),
    List.flatMap_map]
  refine List.flatMap_congr fun path inside => ?_
  rw [Target.findings, explore_classFiles options each path inside]
  rfl

theorem run_classFiles (explorer : Explorer) (nonempty : paths ≠ [])
    (each : ∀ path ∈ paths, ClassFileAt disk path) :
    (roots paths).run explorer disk = .ok (.ofFindings explorer.filters
      (paths.map fun path => .location (.file (path.parent?.getD ⟨""⟩) path))) := by
  have reads : ¬ (roots paths).Fails explorer.walk disk := by
    intro fails
    obtain ⟨path, inside⟩ := List.exists_mem_of_ne_nil paths nonempty
    have failed := fails { root := .place path } (by
      rw [targets_classFiles each]
      exact List.mem_map_of_mem inside)
    rw [explore_classFiles _ each path inside] at failed
    cases failed
  rw [run_of_not_fails reads, findings_classFiles _ each, ownFilters, List.append_nil]

end Search

end ClassAtlas
