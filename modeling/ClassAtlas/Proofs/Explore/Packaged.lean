import ClassAtlas.Proofs.Disk.Linkless
import ClassAtlas.Proofs.Explore.Findings

/-!
# Packages inside the class path

A search for packages looks in a directory of each root. Without links it finds nothing that is not
below the root, and nothing that a search of the entire class path would not find too, if that one
goes deep enough (`Search.packages_inside`). How deep a walk may go is counted from its start, and
the directory of a package is further down than the root (`Search.packages_beyond_classpath`). A
text that is an absolute path leads away from the root (`Search.packageDirectory_of_isAbsolute`).
-/

namespace ClassAtlas

/-! ## Steps of packages -/

/-- The names that lead from a root to a package, as they are written. -/
def packageSteps (package : String) : List String :=
  match trimWhere (· = '.') package.toList with
  | [] => []
  | name => ((ClassName.slashed name).splitOn '/').map String.ofList

theorem toList_slashedNames {parts : List (List Char)} (nonempty : parts ≠ []) :
    (Path.slashedNames (parts.map String.ofList)).toList = ['/'].intercalate parts ++ ['/'] := by
  induction parts with
  | nil => exact absurd rfl nonempty
  | cons part parts ih =>
    show (String.ofList part ++ "/" ++ Path.slashedNames (parts.map String.ofList)).toList = _
    rw [String.toList_append, String.toList_append, String.toList_ofList]
    cases parts with
    | nil => simp [Path.slashedNames]
    | cons second parts =>
      rw [ih (List.cons_ne_nil _ _)]
      simp [List.intercalate]

/-- The directory of a package is written with a slash behind each of its steps. -/
theorem packagePrefix_eq (package : String) :
    packagePrefix package = Path.slashedNames (packageSteps package) := by
  unfold packagePrefix packageSteps
  cases trimWhere (· = '.') package.toList with
  | nil => rfl
  | cons c rest =>
    apply String.toList_injective
    dsimp only
    rw [toList_slashedNames (List.splitOn_ne_nil _ _), List.intercalate_splitOn,
      String.toList_ofList]

theorem mem_slashedNames {names : List String} {name : String} (h : name ∈ names) {c : Char}
    (inside : c ∈ name.toList) : c ∈ (Path.slashedNames names).toList := by
  induction names with
  | nil => cases h
  | cons first names ih =>
    show c ∈ (first ++ "/" ++ Path.slashedNames names).toList
    rw [String.toList_append, String.toList_append, List.mem_append, List.mem_append]
    rcases List.mem_cons.mp h with rfl | h
    · exact .inl (.inl inside)
    · exact .inr (ih h)

theorem not_dot_mem_packagePrefix (package : String) : '.' ∉ (packagePrefix package).toList := by
  unfold packagePrefix
  cases trimWhere (· = '.') package.toList with
  | nil => exact List.not_mem_nil
  | cons c rest =>
    dsimp only
    rw [String.toList_ofList, List.mem_append]
    rintro (dot | slash)
    · obtain ⟨c, _, written⟩ := List.mem_map.mp dot
      split at written
      · cases written
      next other => exact other written
    · exact absurd slash (by decide)

/-- A step that is not empty is a name. -/
theorem fileName_of_mem_packageSteps {package step : String} (h : step ∈ packageSteps package)
    (nonempty : step ≠ "") : Path.FileName step := by
  have dotless : '.' ∉ step.toList := by
    intro dot
    apply not_dot_mem_packagePrefix package
    rw [packagePrefix_eq]
    exact mem_slashedNames h dot
  have clean : '/' ∉ step.toList := by
    unfold packageSteps at h
    split at h
    next => cases h
    next =>
      obtain ⟨part, there, rfl⟩ := List.mem_map.mp h
      rw [String.toList_ofList]
      exact not_mem_of_mem_splitOn there
  have other : ∀ dots : String, '.' ∈ dots.toList → step ≠ dots := by
    rintro dots dot rfl
    exact dotless dot
  exact ⟨nonempty, clean, other "." (by decide), other ".." (by decide)⟩

/-! ## Class files in a root -/

/-- There is a class file under the path, and it is not that of a module descriptor. -/
structure Disk.HasClass (disk : Disk) (path : Path) : Prop where
  ending : path.isClassFile = true
  other : path.isModuleInfo = false
  file : ∃ tree, disk.find path = .ok tree ∧ tree.isFile = true

namespace Root

/-- The directory of a root that is one. -/
inductive IsDirectory : Root → Path → Prop
  | place (path : Path) : IsDirectory (.place path) path
  | exploded {store directory : Path} {found : RuntimeModule}
    (source : found.source = .exploded directory) :
    IsDirectory (.runtimeModule store found) directory

/-- How a class file in the directory of a root is listed. -/
inductive Lists : Root → Path → Location → Prop
  | file (root path : Path) : Lists (.place root) path (.file root path)
  | entry {store directory path : Path} {found : RuntimeModule} {below : List Path.Component}
    (source : found.source = .exploded directory)
    (split : path.componentsBelow? directory = some below) :
    Lists (.runtimeModule store found) path
      (.moduleEntry store found.name (Path.written below) (.loose path))

theorem Lists.file_eq {root : Root} {path : Path} {location : Location}
    (h : root.Lists path location) : location.storage.file = path := by
  cases h with
  | file | entry => rfl

section Walked

variable {disk : Disk} {options : WalkOptions} {root : Root} {directory : Path}

theorem mem_fileFindings_of_class {place file : Path} (ending : file.isClassFile = true)
    (other : file.isModuleInfo = false) (opensArchives : Bool) :
    .location (.file place file) ∈ fileFindings disk place opensArchives file := by
  simp [fileFindings, ending, other]

theorem componentsBelow?_eq_some_iff {path : Path} {below : List Path.Component} :
    path.componentsBelow? directory = some below ↔
      path.components = directory.components ++ below :=
  List.isPrefixOf?_eq_some_iff_append_eq.trans eq_comm

theorem explore_place {entries : List (String × FileTree)}
    (around : disk.find directory = .ok (.directory entries)) (package? : Option String) :
    (place directory).explore disk options package? =
      if disk.isDirectory (packageDirectory directory package?) then
        { findings := (disk.walk options (packageDirectory directory package?)).flatMap
            (itemFindings disk directory package?.isNone) }
      else {} := by
  rw [explore, explorePath, around]
  rfl

theorem explore_exploded {store : Path} {found : RuntimeModule}
    (source : found.source = .exploded directory) (package? : Option String) :
    (runtimeModule store found).explore disk options package? =
      if disk.isDirectory (packageDirectory directory package?) then
        moduleFindings store found.name directory
          (disk.walk options (packageDirectory directory package?))
      else {} := by
  rw [explore, exploreModule, source]

variable (plain : disk.root.Plain)
include plain

/-- What is visited below a directory has its components in front. -/
theorem componentsBelow_of_visited {path : Path} {isFile : Bool}
    (visited : .visited path isFile ∈ disk.walk options directory) :
    ∃ below, path.componentsBelow? directory = some below := by
  obtain ⟨n, reached, _, _⟩ := Disk.reaches_of_mem_walk visited
  obtain ⟨names, _, components⟩ := reached.components plain
  exact ⟨_, componentsBelow?_eq_some_iff.mpr components⟩

/-- Below a start that is a directory a file is a level down at least. -/
theorem class_of_visited {start path : Path} (directed : disk.isDirectory start = true)
    (visited : .visited path true ∈ disk.walk options start) (ending : path.isClassFile = true)
    (other : path.isModuleInfo = false) :
    ∃ n, disk.Reaches (n + 1) start path ∧ disk.HasClass path := by
  obtain ⟨n, reached, _, tree, found, file⟩ := (Disk.mem_walk_iff plain).mp visited
  cases n with
  | zero =>
    cases reached
    obtain ⟨entries, directory⟩ := Disk.isDirectory_eq_true_iff.mp directed
    rw [found] at directory
    cases directory
    cases file
  | succ n => exact ⟨n, reached, ending, other, tree, found, file⟩

/-- What is found of a package is a class file below the directory of the package. -/
theorem class_of_mem_explore {package : String} {found : Location}
    (is : root.IsDirectory directory) (there : disk.isDirectory directory = true)
    (inside : .location found ∈ (root.explore disk options (some package)).findings) :
    ∃ n path, disk.Reaches (n + 1) (directory.join ⟨package⟩) path ∧ disk.HasClass path ∧
      root.Lists path found := by
  cases finds_of_mem_explore inside with
  | file _ upon ending other =>
    cases is
    obtain ⟨n, reached, has⟩ := class_of_visited plain upon.start upon.visited ending other
    exact ⟨n, _, reached, has, .file _ _⟩
  | archive found single =>
    cases is
    obtain ⟨entries, around⟩ := Disk.isDirectory_eq_true_iff.mp there
    cases around.symm.trans found
    cases single
  | exploded source upon ending other split =>
    cases is with
    | exploded source' =>
      cases source.symm.trans source'
      obtain ⟨n, reached, has⟩ := class_of_visited plain upon.start upon.visited ending other
      exact ⟨n, _, reached, has, .entry source split⟩
  | packed source =>
    cases is with
    | exploded source' => cases source.symm.trans source'

/-- A class file is found in a directory, or in the part of it that belongs to a package. -/
theorem mem_explore_place {entries : List (String × FileTree)} {n : Nat} {path : Path}
    (around : disk.find directory = .ok (.directory entries)) {package? : Option String}
    (start : disk.isDirectory (packageDirectory directory package?) = true)
    (reached : disk.Reaches n (packageDirectory directory package?) path)
    (few : ∀ limit, options.maxDepth = some limit → n ≤ limit) (has : disk.HasClass path) :
    ((place directory).explore disk options package?).error = none ∧
      .location (.file directory path) ∈
        ((place directory).explore disk options package?).findings := by
  obtain ⟨tree, file, isFile⟩ := has.file
  have visited := (Disk.mem_walk_iff plain).mpr ⟨n, reached, few, tree, file, isFile⟩
  rw [explore_place around, if_pos start]
  exact ⟨rfl, List.mem_flatMap.mpr ⟨_, visited, mem_fileFindings_of_class has.ending has.other _⟩⟩

/-- A class file that is deep enough below the directory of a root is found in the root. -/
theorem mem_explore_of_class {n : Nat} {path : Path} {found : Location}
    (is : root.IsDirectory directory) (there : disk.isDirectory directory = true)
    (reached : disk.Reaches n directory path)
    (few : ∀ limit, options.maxDepth = some limit → n ≤ limit) (has : disk.HasClass path)
    (listed : root.Lists path found) :
    (root.explore disk options none).error = none ∧
      .location found ∈ (root.explore disk options none).findings := by
  cases is with
  | place =>
    cases listed with
    | file =>
      obtain ⟨entries, around⟩ := Disk.isDirectory_eq_true_iff.mp there
      exact mem_explore_place plain around there reached few has
  | exploded source =>
    cases listed with
    | entry source' split =>
      obtain ⟨tree, file, isFile⟩ := has.file
      have visited := (Disk.mem_walk_iff plain).mpr ⟨n, reached, few, tree, file, isFile⟩
      have inside : ∀ path isFile, .visited path isFile ∈ disk.walk options directory →
          ∃ below, path.componentsBelow? directory = some below := fun path isFile =>
        componentsBelow_of_visited plain
      rw [explore_exploded source, packageDirectory, if_pos there, moduleFindings_eq inside]
      cases source.symm.trans source'
      rw [List.mem_flatMap]
      refine ⟨rfl, _, visited, ?_⟩
      exact mem_entryFindings_iff.mpr ⟨_, rfl, has.ending, has.other, split, rfl⟩

end Walked

end Root

/-! ## Searches -/

namespace Search

/-- Roots of a class path and modules of a store that are directories on the disk. -/
def Directories (disk : Disk) (classpath : Classpath) (store? : Option ModuleStore) : Prop :=
  ∀ root, IsRoot classpath store? root →
    ∃ directory, root.IsDirectory directory ∧ disk.isDirectory directory = true

/-- The walk goes deep enough from a directory to get to the file. -/
def Spans (options : WalkOptions) (directory file : Path) : Prop :=
  ∀ limit below, options.maxDepth = some limit →
    file.componentsBelow? directory = some below → below.length ≤ limit

section Inside

variable {disk : Disk} {classpath : Classpath} {store? : Option ModuleStore} {explorer : Explorer}
variable {root : Root} {directory path : Path} {location : Location} {n : Nat}
variable (plain : disk.root.Plain)
include plain

theorem isWithin_of_package {package : String} (there : disk.isDirectory directory = true)
    (relative : Path.isAbsolute ⟨package⟩ = false)
    (reached : disk.Reaches n (directory.join ⟨package⟩) path) :
    path.isWithin directory = true := by
  obtain ⟨entries, around⟩ := Disk.isDirectory_eq_true_iff.mp there
  obtain ⟨names, _, components⟩ := reached.components plain
  rw [Path.components_join (Disk.isEmpty_of_find around) relative,
    List.append_assoc] at components
  rw [Path.isWithin, components]
  exact List.isPrefixOf_iff_prefix.mpr (List.prefix_append _ _)

/-- A package without empty steps is as many levels down as it has steps. -/
theorem reaches_of_package {name : String} (there : disk.isDirectory directory = true)
    (filled : "" ∉ packageSteps name) (has : disk.HasClass path)
    (reached : disk.Reaches (n + 1) (directory.join ⟨packagePrefix name⟩) path) :
    disk.Reaches ((packageSteps name).length + (n + 1)) directory path := by
  obtain ⟨entries, around⟩ := Disk.isDirectory_eq_true_iff.mp there
  have nonempty := Disk.isEmpty_of_find around
  have named : ∀ step ∈ packageSteps name, Path.FileName step := fun step inside =>
    fileName_of_mem_packageSteps inside fun empty => filled (empty ▸ inside)
  have base := Path.isEmpty_joinAll nonempty named
  rw [packagePrefix_eq, Path.join_slashedNames directory named] at reached
  obtain ⟨tree, file, _⟩ := has.file
  obtain ⟨start, found⟩ := reached.exists_find file
  have front := Disk.find_of_find_join_nothing plain base found
  exact (Disk.Reaches.joinAll plain named nonempty front).trans (reached.of_join_nothing plain base)

/-- A search of the entire class path finds the class files that it can get to. -/
theorem exists_of_entireClasspath (is : IsRoot classpath store? root)
    (directed : root.IsDirectory directory) (there : disk.isDirectory directory = true)
    (reached : disk.Reaches n directory path) (has : disk.HasClass path)
    (listed : root.Lists path location) (included : explorer.filters.includes location = true)
    (few : ∀ limit, explorer.walk.maxDepth = some limit → n ≤ limit) :
    ∃ whole, explorer.entireClasspath disk classpath store? = .ok whole ∧
      ∃ other ∈ whole.locations, other.uri = location.uri := by
  have target : { root } ∈ (entireClasspath classpath store?).targets disk :=
    mem_targets_iff.mpr ⟨root, is, rfl⟩
  obtain ⟨readable, found⟩ := Root.mem_explore_of_class plain directed there reached few has listed
  have runs : ∃ whole, (entireClasspath classpath store?).run explorer disk = .ok whole :=
    exists_run_of_target target readable
  obtain ⟨whole, run⟩ := runs
  have included' : Filters.includes
      (explorer.filters ++ (entireClasspath classpath store?).ownFilters) location = true := by
    rw [ownFilters, List.append_nil]
    exact included
  have kept := exists_kept_of_found run target found included'
  exact ⟨whole, run, kept⟩

/-- A search for a package finds the class files below its directory in a root. -/
theorem exists_of_packages {names : List String} {name : String} (asked : name ∈ names)
    (is : directory ∈ classpath.roots) (there : disk.isDirectory directory = true)
    (start : disk.isDirectory (directory.join ⟨packagePrefix name⟩) = true)
    (reached : disk.Reaches n (directory.join ⟨packagePrefix name⟩) path)
    (has : disk.HasClass path) (included : explorer.filters.includes (.file directory path) = true)
    (few : ∀ limit, explorer.walk.maxDepth = some limit → n ≤ limit) :
    ∃ all, explorer.packages disk classpath store? names = .ok all ∧
      ∃ other ∈ all.locations, other.uri = fileUri path := by
  have target : { root := .place directory, package? := some (packagePrefix name) } ∈
      (packages classpath store? names).targets disk :=
    mem_targets_packages_iff.mpr ⟨name, asked, _, .place is, rfl⟩
  obtain ⟨entries, around⟩ := Disk.isDirectory_eq_true_iff.mp there
  have start' : disk.isDirectory
      (Root.packageDirectory directory (some (packagePrefix name))) = true := start
  obtain ⟨readable, found⟩ := Root.mem_explore_place plain around start' reached few has
  have runs : ∃ all, (packages classpath store? names).run explorer disk = .ok all :=
    exists_run_of_target target readable
  obtain ⟨all, run⟩ := runs
  have included' : Filters.includes
      (explorer.filters ++ (packages classpath store? names).ownFilters)
      (.file directory path) = true := by
    rw [ownFilters, List.append_nil]
    exact included
  have kept := exists_kept_of_found run target found included'
  exact ⟨all, run, kept⟩

end Inside

/-- What a search for packages finds is below a root. If no package has an empty step, a search of
the entire class path finds it too, provided that it goes that deep. -/
theorem packages_inside {disk : Disk} (plain : disk.root.Plain) {classpath : Classpath}
    {store? : Option ModuleStore} (directories : Directories disk classpath store?)
    {explorer : Explorer} {names : List String} {all : Enumeration}
    (relative : ∀ name ∈ names, Path.isAbsolute ⟨packagePrefix name⟩ = false)
    (h : explorer.packages disk classpath store? names = .ok all) :
    ∀ location ∈ all.locations, ∃ root directory, IsRoot classpath store? root ∧
      root.IsDirectory directory ∧ location.storage.file.isWithin directory = true ∧
      ((∀ name ∈ names, "" ∉ packageSteps name) →
        ∀ deep : Explorer, deep.filters = explorer.filters →
          Spans deep.walk directory location.storage.file →
          ∃ whole, deep.entireClasspath disk classpath store? = .ok whole ∧
            ∃ other ∈ whole.locations, other.uri = location.uri) := by
  have run : (packages classpath store? names).run explorer disk = .ok all := h
  intro location kept
  obtain ⟨included, target, there, found⟩ := exists_target_of_kept run kept
  obtain ⟨name, asked, root, is, rfl⟩ := mem_targets_packages_iff.mp there
  obtain ⟨directory, directed, onDisk⟩ := directories root is
  obtain ⟨n, path, reached, has, lists⟩ :=
    Root.class_of_mem_explore plain directed onDisk found
  have within := isWithin_of_package plain onDisk (relative name asked) reached
  rw [lists.file_eq]
  refine ⟨root, directory, is, directed, within, ?_⟩
  intro filled deep same spans
  have whole := reaches_of_package plain onDisk (filled name asked) has reached
  rw [ownFilters, List.append_nil, ← same] at included
  -- There are as many components below the root as levels.
  have few : ∀ limit, deep.walk.maxDepth = .some limit →
      (packageSteps name).length + (n + 1) ≤ limit := by
    intro limit given
    obtain ⟨names, count, components⟩ := whole.components plain
    have below := spans limit _ given (Root.componentsBelow?_eq_some_iff.mpr components)
    rw [List.length_map, count] at below
    exact below
  exact exists_of_entireClasspath plain is directed onDisk whole has lists included few

/-! ## Packages beyond the class path -/

/-- A disk with a class in a package below `/r` and a class elsewhere. -/
def narrowDisk : Disk where
  root := .directory [
    ("r", .directory [("p", .directory [("A.class", .file [])])]),
    ("s", .directory [("B.class", .file [])])]
  workingDirectory := ⟨"/"⟩

def narrowClasspath : Classpath := ⟨[⟨"/r"⟩]⟩

theorem plain_narrowDisk : narrowDisk.root.Plain := by
  have r : Path.FileName "r" := by decide
  have p : Path.FileName "p" := by decide
  have a : Path.FileName "A.class" := by decide
  have s : Path.FileName "s" := by decide
  have b : Path.FileName "B.class" := by decide
  exact ⟨r, ⟨p, ⟨a, trivial, trivial⟩, trivial⟩, s, ⟨b, trivial, trivial⟩, trivial⟩

theorem find_narrowRoot : narrowDisk.find ⟨"/r"⟩ =
    .ok (.directory [("p", .directory [("A.class", .file [])])]) := by
  rw [Disk.find_eq plain_narrowDisk]
  rfl

theorem isDirectory_narrowRoot : narrowDisk.isDirectory ⟨"/r"⟩ = true := by
  rw [Disk.isDirectory, find_narrowRoot]
  rfl

theorem directories_narrowDisk : Directories narrowDisk narrowClasspath none := by
  intro root is
  cases is with
  | place there =>
    cases List.mem_singleton.mp there
    exact ⟨_, .place _, isDirectory_narrowRoot⟩
  | runtimeModule given => cases given

/-- The one class below `/r` is two levels down. -/
theorem reaches_narrowDisk {n : Nat} {path : Path} {tree : FileTree}
    (h : narrowDisk.Reaches n ⟨"/r"⟩ path) (found : narrowDisk.find path = .ok tree)
    (file : tree.isFile = true) : n = 2 ∧ path = ⟨"/r/p/A.class"⟩ := by
  have p : narrowDisk.find ⟨"/r/p"⟩ = .ok (.directory [("A.class", .file [])]) := by
    rw [Disk.find_eq plain_narrowDisk]
    rfl
  have a : narrowDisk.find ⟨"/r/p/A.class"⟩ = .ok (.file []) := by
    rw [Disk.find_eq plain_narrowDisk]
    rfl
  have below : Path.join ⟨"/r"⟩ ⟨"p"⟩ = ⟨"/r/p"⟩ := by decide
  have last : Path.join ⟨"/r/p"⟩ ⟨"A.class"⟩ = ⟨"/r/p/A.class"⟩ := by decide
  rcases h.of_single (Disk.children_of_single find_narrowRoot) with ⟨_, rfl⟩ | ⟨n, rfl, inner⟩
  · rw [find_narrowRoot] at found
    cases found
    cases file
  · rw [below] at inner
    rcases inner.of_single (Disk.children_of_single p) with ⟨_, rfl⟩ | ⟨n, rfl, inmost⟩
    · rw [p] at found
      cases found
      cases file
    · rw [last] at inmost
      cases inmost with
      | here => exact ⟨rfl, rfl⟩
      | down listed =>
        rw [Disk.children, a] at listed
        cases listed

/-- All that the entire class path gives is that class, and only if the walk goes that deep. -/
theorem entireClasspath_narrowDisk (walk : WalkOptions) :
    ∃ whole, Explorer.entireClasspath { walk } narrowDisk narrowClasspath none = .ok whole ∧
      ∀ other ∈ whole.locations, other.uri = "file:///r/p/A.class" ∧
        ∀ limit, walk.maxDepth = some limit → 2 ≤ limit := by
  have target : { root := .place ⟨"/r"⟩ } ∈
      (entireClasspath narrowClasspath none).targets narrowDisk := List.mem_cons_self
  have readable : (Target.explore narrowDisk walk { root := .place ⟨"/r"⟩ }).error = none := by
    rw [Target.explore, Root.explore_place find_narrowRoot]
    split <;> rfl
  have runs : ∃ whole, (entireClasspath narrowClasspath none).run { walk } narrowDisk = .ok whole :=
    exists_run_of_target target readable
  obtain ⟨whole, run⟩ := runs
  refine ⟨whole, run, ?_⟩
  intro other kept
  obtain ⟨_, target, inside, found⟩ := exists_target_of_kept run kept
  cases List.mem_singleton.mp inside
  have file : ∀ {path : Path}, .visited path true ∈ narrowDisk.walk walk ⟨"/r"⟩ →
      path = ⟨"/r/p/A.class"⟩ ∧ ∀ limit, walk.maxDepth = some limit → 2 ≤ limit := by
    intro path visited
    obtain ⟨n, reached, few, tree, there, file⟩ := (Disk.mem_walk_iff plain_narrowDisk).mp visited
    obtain ⟨rfl, rfl⟩ := reaches_narrowDisk reached there file
    exact ⟨rfl, few⟩
  cases Root.finds_of_mem_explore found with
  | file _ upon =>
    obtain ⟨rfl, few⟩ := file upon.visited
    exact ⟨by decide, few⟩
  | inner _ upon kind =>
    obtain ⟨rfl, _⟩ := file upon.visited
    exact absurd kind (by decide)
  | archive there single | single there single =>
    cases find_narrowRoot.symm.trans there
    cases single

/-- The package is found under that URI, and the entire class path has nothing under it. -/
def FoundBeyond (explorer : Explorer) (name uri : String) : Prop :=
  ∃ all whole, explorer.packages narrowDisk narrowClasspath none [name] = .ok all ∧
    explorer.entireClasspath narrowDisk narrowClasspath none = .ok whole ∧
    (∃ location ∈ all.locations, location.uri = uri) ∧
    ∀ other ∈ whole.locations, other.uri ≠ uri

/-- The directory of the package is there, and has one class file of that name. -/
structure HasOneClass (package file uri : String) : Prop where
  directory : narrowDisk.find (Path.join ⟨"/r"⟩ ⟨packagePrefix package⟩) =
    .ok (.directory [(file, .file [])])
  child : narrowDisk.HasClass ((Path.join ⟨"/r"⟩ ⟨packagePrefix package⟩).join ⟨file⟩)
  uri_eq : fileUri ((Path.join ⟨"/r"⟩ ⟨packagePrefix package⟩).join ⟨file⟩) = uri

theorem HasOneClass.packages {package file uri : String} (one : HasOneClass package file uri)
    (walk : WalkOptions) (few : ∀ limit, walk.maxDepth = some limit → 1 ≤ limit) :
    ∃ all, Explorer.packages { walk } narrowDisk narrowClasspath none [package] = .ok all ∧
      ∃ other ∈ all.locations, other.uri = uri := by
  have start : narrowDisk.isDirectory (Path.join ⟨"/r"⟩ ⟨packagePrefix package⟩) = true := by
    rw [Disk.isDirectory, one.directory]
    rfl
  have reached := Disk.Reaches.down (Disk.children_of_single one.directory)
    (List.mem_singleton_self _) (.here _)
  rw [← one.uri_eq]
  exact exists_of_packages plain_narrowDisk List.mem_cons_self List.mem_cons_self
    isDirectory_narrowRoot start reached one.child rfl few

theorem HasOneClass.foundBeyond {package file uri : String} (one : HasOneClass package file uri)
    {walk : WalkOptions} (few : ∀ limit, walk.maxDepth = some limit → 1 ≤ limit)
    (apart : uri ≠ "file:///r/p/A.class" ∨ walk.maxDepth = some 1) :
    FoundBeyond { walk } package uri := by
  obtain ⟨all, found, there⟩ := one.packages walk few
  obtain ⟨whole, entire, only⟩ := entireClasspath_narrowDisk walk
  refine ⟨all, whole, found, entire, there, ?_⟩
  intro other kept same
  obtain ⟨single, deep⟩ := only other kept
  rcases apart with different | shallow
  · exact different (same.symm.trans single)
  · have two := deep 1 shallow
    omega

theorem HasOneClass.of_find {package file uri : String} (start path : Path)
    (begins : Path.join ⟨"/r"⟩ ⟨packagePrefix package⟩ = start) (child : start.join ⟨file⟩ = path)
    (directory : narrowDisk.find start = .ok (.directory [(file, .file [])]))
    (has : narrowDisk.HasClass path) (written : fileUri path = uri) :
    HasOneClass package file uri where
  directory := by
    rw [begins]
    exact directory
  child := by
    rw [begins, child]
    exact has
  uri_eq := by
    rw [begins, child]
    exact written

theorem hasOneClass_p : HasOneClass "p" "A.class" "file:///r/p/A.class" := by
  have directory : narrowDisk.find ⟨"/r/p/"⟩ = .ok (.directory [("A.class", .file [])]) := by
    rw [Disk.find_eq plain_narrowDisk]
    rfl
  have file : narrowDisk.find ⟨"/r/p/A.class"⟩ = .ok (.file []) := by
    rw [Disk.find_eq plain_narrowDisk]
    rfl
  have has : narrowDisk.HasClass ⟨"/r/p/A.class"⟩ := ⟨by decide, by decide, _, file, rfl⟩
  exact .of_find _ _ (by decide) (by decide) directory has (by decide)

theorem hasOneClass_emptyStep : HasOneClass "p/" "A.class" "file:///r/p//A.class" := by
  have directory : narrowDisk.find ⟨"/r/p//"⟩ = .ok (.directory [("A.class", .file [])]) := by
    rw [Disk.find_eq plain_narrowDisk]
    rfl
  have file : narrowDisk.find ⟨"/r/p//A.class"⟩ = .ok (.file []) := by
    rw [Disk.find_eq plain_narrowDisk]
    rfl
  have has : narrowDisk.HasClass ⟨"/r/p//A.class"⟩ := ⟨by decide, by decide, _, file, rfl⟩
  exact .of_find _ _ (by decide) (by decide) directory has (by decide)

/-- What a package has may be too deep for the entire class path, since the depth is counted from
where a walk starts; and with an empty step in the text of a package a class has another URI. -/
theorem packages_beyond_classpath :
    narrowDisk.root.Plain ∧ Directories narrowDisk narrowClasspath none ∧
    FoundBeyond { walk := { maxDepth := some 1 } } "p" "file:///r/p/A.class" ∧
    FoundBeyond {} "p/" "file:///r/p//A.class" := by
  have shallow : FoundBeyond { walk := { maxDepth := some 1 } } "p" "file:///r/p/A.class" := by
    have few : ∀ limit, WalkOptions.maxDepth { maxDepth := some 1 } = some limit → 1 ≤ limit := by
      rintro limit ⟨⟩
      exact Nat.le_refl 1
    exact hasOneClass_p.foundBeyond few (.inr rfl)
  have empty : FoundBeyond {} "p/" "file:///r/p//A.class" :=
    hasOneClass_emptyStep.foundBeyond nofun (.inl (by decide))
  exact ⟨plain_narrowDisk, directories_narrowDisk, shallow, empty⟩

/-- Without a limit the class of the package is found both ways. -/
theorem packages_inside_narrowDisk :
    ∃ all whole, Explorer.packages {} narrowDisk narrowClasspath none ["p"] = .ok all ∧
      Explorer.entireClasspath {} narrowDisk narrowClasspath none = .ok whole ∧
      (∃ location ∈ all.locations, location.uri = "file:///r/p/A.class") ∧
      ∀ location ∈ all.locations, location.storage.file.isWithin ⟨"/r"⟩ = true ∧
        ∃ other ∈ whole.locations, other.uri = location.uri := by
  obtain ⟨all, found, there⟩ := hasOneClass_p.packages {} fun _ given => nomatch given
  obtain ⟨whole, entire, _⟩ := entireClasspath_narrowDisk {}
  refine ⟨all, whole, found, entire, there, ?_⟩
  intro location kept
  have relative : ∀ name ∈ ["p"], Path.isAbsolute ⟨packagePrefix name⟩ = false := by decide
  have filled : ∀ name ∈ ["p"], "" ∉ packageSteps name := by
    simp [packageSteps]
    decide
  obtain ⟨root, directory, is, directed, within, again⟩ :=
    packages_inside plain_narrowDisk directories_narrowDisk relative found location kept
  cases is with
  | runtimeModule given => cases given
  | place there =>
    cases List.mem_singleton.mp there
    cases directed
    have spans : Spans {} ⟨"/r"⟩ location.storage.file := by
      rintro _ _ ⟨⟩
    obtain ⟨whole', entire', other, kept', same⟩ := again filled {} rfl spans
    cases entire.symm.trans entire'
    exact ⟨within, other, kept', same⟩

/-! ## Texts that are absolute paths -/

/-- Such a text is looked for where it leads by itself, whatever the root. -/
theorem packageDirectory_of_isAbsolute {package : String} (directory : Path)
    (absolute : Path.isAbsolute ⟨package⟩ = true) :
    Root.packageDirectory directory (some package) = ⟨package⟩ := by
  show directory.join ⟨package⟩ = _
  rw [Path.join, absolute, Bool.true_or, if_pos rfl]

/-- So a class is found that is below no root. -/
theorem foundBeyond_absolute : FoundBeyond {} "/s" "file:///s/B.class" := by
  have prefixed : packagePrefix "/s" = "/s/" := by decide
  have own : Path.join ⟨"/r"⟩ ⟨packagePrefix "/s"⟩ = ⟨"/s/"⟩ := by
    rw [prefixed]
    exact packageDirectory_of_isAbsolute ⟨"/r"⟩ (by decide)
  have directory : narrowDisk.find ⟨"/s/"⟩ = .ok (.directory [("B.class", .file [])]) := by
    rw [Disk.find_eq plain_narrowDisk]
    rfl
  have file : narrowDisk.find ⟨"/s/B.class"⟩ = .ok (.file []) := by
    rw [Disk.find_eq plain_narrowDisk]
    rfl
  have has : narrowDisk.HasClass ⟨"/s/B.class"⟩ := ⟨by decide, by decide, _, file, rfl⟩
  have one : HasOneClass "/s" "B.class" "file:///s/B.class" :=
    .of_find _ _ own (by decide) directory has (by decide)
  exact one.foundBeyond nofun (.inl (by decide))

end Search

end ClassAtlas
