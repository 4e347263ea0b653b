import ClassAtlas.Proofs.Explore.Below
import ClassAtlas.Proofs.Results
import ClassAtlas.Root

/-!
# Where findings come from

`Root.Finds`: the ways in which something is found in a root, each with what has to be there.
Whatever is found in a root is found in one of these ways (`Root.finds_of_mem_explore`), so what is
true of all findings is seen way by way.
-/

namespace ClassAtlas.Root

/-! ## Listings -/

/-- What is listed below a directory are the entries whose names go on like those of classes. -/
theorem mem_classEntries {archive : Archive} {directory name : String} :
    name ∈ archive.classEntries directory ↔ (∃ entry ∈ archive.entries, entry.name = name) ∧
      ∃ rest, directory.toList ++ rest = name.toList ∧
        isImportableEntry (String.ofList rest) = true := by
  rw [Archive.classEntries, mem_foldl_insertAscending, List.mem_filterMap]
  constructor
  · rintro (⟨entry, inside, tells⟩ | inside)
    · obtain ⟨below, named⟩ := Option.ite_none_right_eq_some.mp tells
      obtain ⟨rest, cut, importable⟩ := (Option.any_eq_true _ _).mp below
      cases named
      exact ⟨⟨entry, inside, rfl⟩, rest, List.isPrefixOf?_eq_some_iff_append_eq.mp cut,
        importable⟩
    · cases inside
  · rintro ⟨⟨entry, inside, rfl⟩, rest, whole, importable⟩
    refine .inl ⟨entry, inside, if_pos ((Option.any_eq_true _ _).mpr ⟨rest, ?_, importable⟩)⟩
    exact List.isPrefixOf?_eq_some_iff_append_eq.mpr whole

theorem importable_of_mem_classEntries {archive : Archive} {directory name : String}
    (h : name ∈ archive.classEntries directory) :
    ∃ rest, name.toList = directory.toList ++ rest ∧
      isImportableEntry (String.ofList rest) = true := by
  obtain ⟨_, rest, whole, importable⟩ := mem_classEntries.mp h
  exact ⟨rest, whole.symm, importable⟩

section Listed

variable {disk : Disk} {archive : Path} {locations : List Location} {found : Location}

/-- What is listed of an archive are entries of it. -/
theorem entry_of_archiveLocations {directory : String}
    (listed : archiveLocations disk archive directory = .ok locations)
    (inside : found ∈ locations) :
    ∃ content entry, Archive.openAt disk archive = .ok content ∧
      entry ∈ content.classEntries directory ∧ found = .jarEntry archive entry := by
  obtain ⟨content, opened, rfl⟩ := ok_of_map listed
  obtain ⟨entry, there, rfl⟩ := List.mem_map.mp inside
  exact ⟨content, entry, opened, there, rfl⟩

/-- What is listed of a packed module are entries in the directory of its classes, under the names
that they have there. -/
theorem entry_of_packedModuleLocations {store : Path} {name : String} {package? : Option String}
    (listed : packedModuleLocations disk store name archive package? = .ok locations)
    (inside : found ∈ locations) :
    ∃ content entry, Archive.openAt disk archive = .ok content ∧
      moduleClasses ++ entry ∈ content.classEntries (moduleClasses ++ package?.getD "") ∧
      found = .moduleEntry store name entry (.archived archive (moduleClasses ++ entry)) := by
  obtain ⟨content, opened, rfl⟩ := ok_of_map listed
  obtain ⟨full, there, rfl⟩ := List.mem_map.mp inside
  obtain ⟨rest, split, _⟩ := importable_of_mem_classEntries there
  rw [String.toList_append, List.append_assoc] at split
  obtain ⟨entry, rfl⟩ : ∃ entry, full = moduleClasses ++ entry := by
    refine ⟨String.ofList ((package?.getD "").toList ++ rest), String.toList_injective ?_⟩
    rw [String.toList_append, String.toList_ofList, split]
  have cut : String.ofList ((moduleClasses ++ entry).toList.drop moduleClasses.length) = entry := by
    rw [String.toList_append, ← String.length_toList, List.drop_left, String.ofList_toList]
  refine ⟨content, entry, opened, there, ?_⟩
  dsimp only
  rw [cut]

end Listed

/-! ## Items of walks -/

section Items

variable {store directory : Path} {name : String}

/-- What a single item of a walk gives of a module, if it is below the directory of the module. -/
def entryFindings (store : Path) (name : String) (directory : Path) : WalkItem → List Finding
  | .fault cause => [.failure (.unreadable (moduleUri name) cause.message)]
  | .visited path isFile =>
    if !isFile || !path.isClassFile || path.isModuleInfo then []
    else (path.componentsBelow? directory).toList.map fun below =>
      .location (.moduleEntry store name (Path.written below) (.loose path))

theorem mem_entryFindings_iff {path : Path} {isFile : Bool} {finding : Finding} :
    finding ∈ entryFindings store name directory (.visited path isFile) ↔
      ∃ below, isFile = true ∧ path.isClassFile = true ∧ path.isModuleInfo = false ∧
        path.componentsBelow? directory = some below ∧
        finding = .location (.moduleEntry store name (Path.written below) (.loose path)) := by
  rw [entryFindings]
  cases isFile with
  | false => simp
  | true =>
    by_cases ending : path.isClassFile = true
    · cases other : path.isModuleInfo with
      | true => simp
      | false =>
        cases split : path.componentsBelow? directory with
        | none => simp
        | some below => simp [ending]
    · simp [ending]

/-- A module is listed item by item, up to a class file that is not below its directory. -/
theorem prefix_moduleFindings (items : List WalkItem) :
    (moduleFindings store name directory items).findings <+:
      items.flatMap (entryFindings store name directory) := by
  induction items with
  | nil => exact List.prefix_rfl
  | cons item items ih =>
    rw [List.flatMap_cons]
    cases item with
    | fault cause => exact List.cons_prefix_cons.mpr ⟨rfl, ih⟩
    | visited path isFile =>
      rw [moduleFindings, entryFindings]
      split
      · exact ih
      · cases path.componentsBelow? directory with
        | none => exact List.nil_prefix
        | some below => exact List.cons_prefix_cons.mpr ⟨rfl, ih⟩

/-- A module whose walk stays below its directory is listed to the end. -/
theorem moduleFindings_eq {items : List WalkItem}
    (inside : ∀ path isFile, .visited path isFile ∈ items →
      ∃ below, path.componentsBelow? directory = some below) :
    moduleFindings store name directory items =
      { findings := items.flatMap (entryFindings store name directory) } := by
  induction items with
  | nil => rfl
  | cons item items ih =>
    have rest := ih fun path isFile there => inside path isFile (List.mem_cons_of_mem _ there)
    cases item with
    | fault cause =>
      rw [moduleFindings, rest]
      rfl
    | visited path isFile =>
      rw [moduleFindings, List.flatMap_cons, entryFindings]
      split
      · exact rest
      · obtain ⟨below, split⟩ := inside path isFile List.mem_cons_self
        rw [split, rest]
        rfl

end Items

/-! ## Findings -/

/-- The walk through a directory, or through the part of it that belongs to a package, comes upon
the item. -/
structure ComesUpon (disk : Disk) (options : WalkOptions) (directory : Path)
    (package? : Option String) (item : WalkItem) : Prop where
  start : disk.isDirectory (packageDirectory directory package?) = true
  visited : item ∈ disk.walk options (packageDirectory directory package?)

/-- How something is found in a root, or in the part of it that belongs to a package. -/
inductive Finds (disk : Disk) (options : WalkOptions) : Root → Option String → Finding → Prop
  /-- A class file in a directory. -/
  | file {place path : Path} {package? : Option String} (around : disk.isDirectory place = true)
    (upon : ComesUpon disk options place package? (.visited path true))
    (ending : path.isClassFile = true) (other : path.isModuleInfo = false) :
    Finds disk options (.place place) package? (.location (.file place path))
  /-- An entry of an archive in a directory. No archive is opened for a package. -/
  | inner {place archive : Path} {content : Archive} {entry : String}
    (around : disk.isDirectory place = true)
    (upon : ComesUpon disk options place none (.visited archive true))
    (kind : archive.isArchive = true) (opened : Archive.openAt disk archive = .ok content)
    (listed : entry ∈ content.classEntries "") :
    Finds disk options (.place place) none (.location (.jarEntry archive entry))
  /-- An archive in a directory that does not open. -/
  | unopened {place archive : Path} {cause : ImportError} (around : disk.isDirectory place = true)
    (upon : ComesUpon disk options place none (.visited archive true))
    (kind : archive.isArchive = true) (refused : Archive.openAt disk archive = .error cause) :
    Finds disk options (.place place) none (.failure (.unreadable archive.text cause.message))
  /-- Something in a directory that cannot be visited. -/
  | unvisited {place : Path} {package? : Option String} {cause : WalkFault}
    (around : disk.isDirectory place = true)
    (upon : ComesUpon disk options place package? (.fault cause)) :
    Finds disk options (.place place) package?
      (.failure (.unreadable cause.path.text cause.message))
  /-- An entry of the archive that is the root. -/
  | archive {archive : Path} {tree : FileTree} {package? : Option String} {content : Archive}
    {entry : String} (there : disk.find archive = .ok tree) (single : tree.isDirectory = false)
    (kind : archive.isArchive = true) (opened : Archive.openAt disk archive = .ok content)
    (listed : entry ∈ content.classEntries (package?.getD "")) :
    Finds disk options (.place archive) package? (.location (.jarEntry archive entry))
  /-- The class file that is the root. It may be a module descriptor. -/
  | single {path : Path} {tree : FileTree} (there : disk.find path = .ok tree)
    (single : tree.isDirectory = false) (ending : path.isClassFile = true) :
    Finds disk options (.place path) none (.location (.file (path.parent?.getD ⟨""⟩) path))
  /-- A class file of an exploded module. -/
  | exploded {store directory path : Path} {found : RuntimeModule} {package? : Option String}
    {below : List Path.Component} (source : found.source = .exploded directory)
    (upon : ComesUpon disk options directory package? (.visited path true))
    (ending : path.isClassFile = true) (other : path.isModuleInfo = false)
    (split : path.componentsBelow? directory = some below) :
    Finds disk options (.runtimeModule store found) package?
      (.location (.moduleEntry store found.name (Path.written below) (.loose path)))
  /-- Something in an exploded module that cannot be visited. -/
  | unvisitedEntry {store directory : Path} {found : RuntimeModule} {package? : Option String}
    {cause : WalkFault} (source : found.source = .exploded directory)
    (upon : ComesUpon disk options directory package? (.fault cause)) :
    Finds disk options (.runtimeModule store found) package?
      (.failure (.unreadable (moduleUri found.name) cause.message))
  /-- An entry of a packed module. -/
  | packed {store archive : Path} {found : RuntimeModule} {package? : Option String}
    {content : Archive} {entry : String} (source : found.source = .packed archive)
    (opened : Archive.openAt disk archive = .ok content)
    (listed : moduleClasses ++ entry ∈ content.classEntries (moduleClasses ++ package?.getD "")) :
    Finds disk options (.runtimeModule store found) package? (.location
      (.moduleEntry store found.name entry (.archived archive (moduleClasses ++ entry))))

/-- What comes of a list are the locations of the list. -/
theorem mem_ofResult {result : Except ImportError (List Location)} {finding : Finding}
    (h : finding ∈ (Exploration.ofResult result).findings) :
    ∃ locations, result = .ok locations ∧ ∃ found ∈ locations, finding = .location found := by
  cases result with
  | error cause => cases h
  | ok locations =>
    obtain ⟨found, inside, same⟩ := List.mem_map.mp h
    exact ⟨locations, rfl, found, inside, same.symm⟩

section Found

variable {disk : Disk} {options : WalkOptions} {package? : Option String} {finding : Finding}

theorem finds_of_mem_fileFindings {place file : Path} (around : disk.isDirectory place = true)
    (upon : ComesUpon disk options place package? (.visited file true))
    (h : finding ∈ fileFindings disk place package?.isNone file) :
    Finds disk options (.place place) package? finding := by
  unfold fileFindings at h
  split at h
  next ending =>
    split at h
    next => cases h
    next other =>
      cases List.mem_singleton.mp h
      exact .file around upon ending (Bool.eq_false_iff.mpr other)
  next =>
    split at h
    next opens =>
      obtain ⟨kind, missing⟩ := Bool.and_eq_true_iff.mp opens
      obtain rfl := Option.isNone_iff_eq_none.mp missing
      cases listed : archiveLocations disk file "" with
      | ok locations =>
        rw [listed] at h
        obtain ⟨found, inside, rfl⟩ := List.mem_map.mp h
        obtain ⟨content, entry, opened, there, rfl⟩ := entry_of_archiveLocations listed inside
        exact .inner around upon kind opened there
      | error cause =>
        rw [listed] at h
        cases List.mem_singleton.mp h
        exact .unopened around upon kind (error_of_map listed)
    next => cases h

theorem finds_of_mem_exploreDirectory {place : Path} (around : disk.isDirectory place = true)
    (h : finding ∈ (exploreDirectory disk options place package?).findings) :
    Finds disk options (.place place) package? finding := by
  dsimp only [exploreDirectory] at h
  split at h
  next start =>
    obtain ⟨item, visited, h⟩ := List.mem_flatMap.mp h
    match item with
    | .visited path true => exact finds_of_mem_fileFindings around ⟨start, visited⟩ h
    | .visited _ false => cases h
    | .fault cause =>
      cases List.mem_singleton.mp h
      exact .unvisited around ⟨start, visited⟩
  next => cases h

theorem finds_of_mem_explorePath {path : Path}
    (h : finding ∈ (explorePath disk options path package?).findings) :
    Finds disk options (.place path) package? finding := by
  unfold explorePath at h
  cases there : disk.find path with
  | error fault =>
    rw [there] at h
    cases h
  | ok tree =>
    rw [there] at h
    dsimp only at h
    split at h
    next directory =>
      have around : disk.isDirectory path = true := by
        rw [Disk.isDirectory, there]
        exact directory
      exact finds_of_mem_exploreDirectory around h
    next other =>
      have single := Bool.eq_false_iff.mpr other
      split at h
      next kind =>
        obtain ⟨locations, listed, found, inside, rfl⟩ := mem_ofResult h
        obtain ⟨content, entry, opened, listed, rfl⟩ := entry_of_archiveLocations listed inside
        exact .archive there single kind opened listed
      next =>
        split at h
        next ending =>
          cases package? with
          | some package => cases h
          | none =>
            cases List.mem_singleton.mp h
            exact .single there single ending
        next => cases h

theorem finds_of_mem_exploreModule {store : Path} {found : RuntimeModule}
    (h : finding ∈ (exploreModule disk options store found package?).findings) :
    Finds disk options (.runtimeModule store found) package? finding := by
  unfold exploreModule at h
  split at h
  next directory source =>
    dsimp only at h
    split at h
    next start =>
      obtain ⟨item, visited, h⟩ := List.mem_flatMap.mp ((prefix_moduleFindings _).subset h)
      cases item with
      | fault cause =>
        cases List.mem_singleton.mp h
        exact .unvisitedEntry source ⟨start, visited⟩
      | visited path isFile =>
        obtain ⟨below, rfl, ending, other, split, rfl⟩ := mem_entryFindings_iff.mp h
        exact .exploded source ⟨start, visited⟩ ending other split
    next => cases h
  next archive source =>
    obtain ⟨locations, listed, location, inside, rfl⟩ := mem_ofResult h
    obtain ⟨content, entry, opened, there, rfl⟩ := entry_of_packedModuleLocations listed inside
    exact .packed source opened there

/-- Whatever is found in a root is found in one of these ways. -/
theorem finds_of_mem_explore {root : Root}
    (h : finding ∈ (root.explore disk options package?).findings) :
    root.Finds disk options package? finding := by
  cases root with
  | place path => exact finds_of_mem_explorePath h
  | runtimeModule store found => exact finds_of_mem_exploreModule h

end Found

end ClassAtlas.Root
