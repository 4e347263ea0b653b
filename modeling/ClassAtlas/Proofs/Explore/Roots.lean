import ClassAtlas.Proofs.ClassGraph.Firsts
import ClassAtlas.Proofs.Disk.Joined
import ClassAtlas.Proofs.Explore.Findings
import ClassAtlas.Proofs.Glob.Search

/-!
# Roots of searches

What a search looks through comes from a class path, from a module store, or from paths that are
asked for (`Search.Looks`). A class path keeps the first of the roots that are one path
(`Classpath.roots_ofEntries`), which are absolute (`Classpath.absolute_ofEntries`). A store keeps
the first of the modules of one name (`ModuleStore.discover_eq`), so that it tells them apart
(`ModuleStore.regular_discover`). So every root of a search is regular, and no two of them are
different modules of one name.
-/

namespace ClassAtlas

/-- All paths are absolute. -/
def AllAbsolute (paths : List Path) : Prop := ∀ path ∈ paths, path.isAbsolute = true

/-! ## Patterns -/

namespace Glob

variable {disk : Disk} {patterns rest : List Pattern} {path next found : Path}

theorem GoesOn.absolute (h : GoesOn disk patterns path rest next)
    (absolute : path.isAbsolute = true) : next.isAbsolute = true := by
  cases h with
  | lookup | dots => exact Path.isAbsolute_join absolute _
  | child _ _ listed inside | deeper _ listed inside | each _ listed inside
  | behind _ listed inside => exact Disk.isAbsolute_of_mem_children absolute listed _ inside

theorem Arrives.absolute (h : Arrives disk patterns path found)
    (absolute : path.isAbsolute = true) : found.isAbsolute = true := by
  induction h with
  | here => exact absolute
  | goesOn goes _ ih => exact ih (goes.absolute absolute)

end Glob

/-- A pattern describes absolute paths. -/
theorem Disk.absolute_glob {disk : Disk} {pattern : String} {paths : List Path}
    (h : disk.glob pattern = .ok paths) : AllAbsolute paths := by
  obtain ⟨whole, _, h⟩ := ok_of_bind h
  obtain ⟨patterns, _, h⟩ := ok_of_bind h
  cases h
  exact fun _ inside => (Glob.arrives_of_mem_search inside).absolute rfl

/-! ## Class paths -/

namespace Classpath

theorem absolute_expand {disk : Disk} {entry : Path} (absolute : entry.isAbsolute = true) :
    AllAbsolute (expand disk entry) := by
  unfold expand
  split
  · split
    next jars listed =>
      intro jar inside
      exact Disk.absolute_glob listed jar (List.mem_mergeSort.mp inside)
    next => exact List.forall_mem_nil _
  · exact List.forall_mem_singleton.mpr absolute

/-- What the entries stand for, with repetitions. -/
def expanded (disk : Disk) (entries : List Path) : List Path :=
  ((entries.filter (!·.isEmpty)).map (Path.absolute disk.workingDirectory)).flatMap (expand disk)

theorem roots_ofEntries (disk : Disk) (entries : List Path) :
    (ofEntries disk entries).roots = firsts Path.components (expanded disk entries) :=
  eraseDupsBy_eq_firsts Path.components _

/-- A root is one that an absolute entry stands for. -/
theorem exists_of_mem_roots {disk : Disk} (rooted : disk.workingDirectory.isAbsolute = true)
    {entries : List Path} {root : Path} (inside : root ∈ (ofEntries disk entries).roots) :
    ∃ entry : Path, entry.isAbsolute = true ∧ root ∈ expand disk entry := by
  rw [roots_ofEntries] at inside
  obtain ⟨entry, there, found⟩ := List.mem_flatMap.mp (mem_of_mem_firsts _ inside)
  obtain ⟨given, listed, rfl⟩ := List.mem_map.mp there
  have nonempty : given.isEmpty = false := by
    simpa using (List.mem_filter.mp listed).2
  exact ⟨_, Path.isAbsolute_absolute rooted nonempty, found⟩

/-- The roots of a class path are absolute. -/
theorem absolute_ofEntries {disk : Disk} (rooted : disk.workingDirectory.isAbsolute = true)
    (entries : List Path) : AllAbsolute (ofEntries disk entries).roots := by
  intro root inside
  obtain ⟨entry, absolute, found⟩ := exists_of_mem_roots rooted inside
  exact absolute_expand absolute root found

/-- The class path was put together from entries. -/
def Collected (classpath : Classpath) : Prop :=
  ∃ (disk : Disk) (entries : List Path), disk.workingDirectory.isAbsolute = true ∧
    classpath = ofEntries disk entries

theorem Collected.absolute {classpath : Classpath} (collected : classpath.Collected) :
    AllAbsolute classpath.roots := by
  obtain ⟨disk, entries, rooted, rfl⟩ := collected
  exact absolute_ofEntries rooted entries

end Classpath

/-! ## Module stores -/

namespace ModuleStore

/-- The modules can be told apart by their names, in the store and in a URI. -/
structure Regular (store : ModuleStore) : Prop where
  roots : ∀ found ∈ store.modules, (Root.runtimeModule store.root found).Regular
  names : (store.modules.map (·.name)).Nodup

theorem explodedModule?_eq_some_iff {disk : Disk} {path : Path} {found : RuntimeModule} :
    explodedModule? disk path = some found ↔ disk.isDirectory path = true ∧
      path.fileName? = some found.name ∧ found.source = .exploded path := by
  obtain ⟨name, source⟩ := found
  by_cases directory : disk.isDirectory path = true
  · rw [explodedModule?, if_pos directory, Option.map_eq_some_iff]
    simp [directory, eq_comm]
  · simp [explodedModule?, directory]

theorem packedModule?_eq_some_iff {path : Path} {found : RuntimeModule} :
    packedModule? path = some found ↔ path.isModuleArchive = true ∧
      path.stem? = some found.name ∧ found.source = .packed path := by
  obtain ⟨name, source⟩ := found
  by_cases archive : path.isModuleArchive = true
  · rw [packedModule?, if_pos archive, Option.map_eq_some_iff]
    simp [archive, eq_comm]
  · simp [packedModule?, archive]

theorem regular_explodedModule {disk : Disk} {path : Path} {found : RuntimeModule} (store : Path)
    (h : explodedModule? disk path = some found) : (Root.runtimeModule store found).Regular := by
  obtain ⟨_, named, source⟩ := explodedModule?_eq_some_iff.mp h
  have nonempty : path.components ≠ [] := List.ne_nil_of_mem (Path.mem_of_fileName named)
  exact .exploded (Path.clean_fileName named) source nonempty

theorem regular_packedModule {path : Path} {found : RuntimeModule} (store : Path)
    (h : packedModule? path = some found) : (Root.runtimeModule store found).Regular := by
  obtain ⟨_, stem, source⟩ := packedModule?_eq_some_iff.mp h
  exact .packed (Path.clean_stem stem) source

/-- The children of a directory, or none where there is no directory. -/
def listed (disk : Disk) (directory : Path) : List Path :=
  (disk.children directory).toOption.getD []

theorem childrenIn_eq (disk : Disk) (directory : Path) :
    childrenIn disk directory = .ok (listed disk directory) := by
  unfold childrenIn listed Disk.isDirectory Disk.children
  cases disk.find directory with
  | error fault => rfl
  | ok tree => cases tree <;> rfl

/-- The modules in directories. -/
def exploded (disk : Disk) (root : Path) : List RuntimeModule :=
  (listed disk (root.join ⟨"modules"⟩)).filterMap (explodedModule? disk)

/-- The modules in archives. -/
def packed (disk : Disk) (root : Path) : List RuntimeModule :=
  (listed disk (root.join ⟨"jmods"⟩)).filterMap packedModule?

/-- All that is found, the directories in front. -/
def candidates (disk : Disk) (root : Path) : List RuntimeModule :=
  exploded disk root ++ packed disk root

theorem discover_eq {disk : Disk} {root : Path} (there : disk.isDirectory root = true) :
    discover disk root = .ok {
      root
      modules := (firsts RuntimeModule.name (candidates disk root)).mergeSort fun a b =>
        decide (a.name ≤ b.name)
      hasImage := disk.isFile (root.join imagePlace) } := by
  rw [discover, there, childrenIn_eq, childrenIn_eq, ← eraseDupsBy_eq_firsts]
  rfl

/-- The modules of a store are the first ones of their names. -/
theorem modules_of_discover {disk : Disk} {root : Path} {store : ModuleStore}
    (h : discover disk root = .ok store) :
    store.modules.Perm (firsts RuntimeModule.name (candidates disk root)) := by
  cases there : disk.isDirectory root with
  | false =>
    rw [discover, there] at h
    cases h
  | true =>
    rw [discover_eq there] at h
    cases h
    exact List.mergeSort_perm _ _

/-- A module comes from a directory or from an archive. -/
theorem module_of_discover {disk : Disk} {root : Path} {store : ModuleStore}
    (h : discover disk root = .ok store) {found : RuntimeModule} (inside : found ∈ store.modules) :
    (∃ path, explodedModule? disk path = some found) ∨
      ∃ path, packedModule? path = some found := by
  have candidate := mem_of_mem_firsts _ ((modules_of_discover h).mem_iff.mp inside)
  rcases List.mem_append.mp candidate with there | there
  · obtain ⟨path, _, is⟩ := List.mem_filterMap.mp there
    exact .inl ⟨path, is⟩
  · obtain ⟨path, _, is⟩ := List.mem_filterMap.mp there
    exact .inr ⟨path, is⟩

/-- The store of an installation is regular. -/
theorem regular_discover {disk : Disk} {root : Path} {store : ModuleStore}
    (h : discover disk root = .ok store) : store.Regular := by
  constructor
  · intro found inside
    rcases module_of_discover h inside with ⟨path, is⟩ | ⟨path, is⟩
    · exact regular_explodedModule store.root is
    · exact regular_packedModule store.root is
  · exact ((modules_of_discover h).map _).nodup_iff.mpr (nodup_map_firsts _ _)

/-- The store was found in an installation. -/
def Collected (store : ModuleStore) : Prop :=
  ∃ (disk : Disk) (root : Path), discover disk root = .ok store

theorem Collected.regular {store : ModuleStore} (collected : store.Collected) : store.Regular := by
  obtain ⟨disk, root, found⟩ := collected
  exact regular_discover found

end ModuleStore

/-! ## Searches -/

/-- Two modules of one name are one module. -/
def Root.Agree : Root → Root → Prop
  | runtimeModule _ found, runtimeModule _ other => found.name = other.name → found = other
  | runtimeModule _ _, place _ | place _, runtimeModule _ _ | place _, place _ => True

namespace Search

/-- The class path was put together from entries, and the store was found in an installation. -/
structure Collected (search : Search) : Prop where
  classpath : ∀ classpath, search.classpath? = some classpath → classpath.Collected
  store : ∀ store, search.store? = some store → store.Collected

variable {search : Search} {disk : Disk}

/-- A root is a place that is absolute or no place at all, or a module of the store. -/
inductive Looks (search : Search) : Root → Prop
  | place {path : Path} (absolute : path.isAbsolute = true ∨ path.isEmpty = true) :
    Looks search (.place path)
  | runtimeModule {store : ModuleStore} {found : RuntimeModule} (is : search.store? = some store)
      (there : found ∈ store.modules) : Looks search (.runtimeModule store.root found)

/-- What a search looks through. -/
theorem Collected.looks (collected : search.Collected)
    (rooted : disk.workingDirectory.isAbsolute = true) {target : Target}
    (h : target ∈ search.targets disk) : search.Looks target.root := by
  cases covers_of_mem_targets h with
  | @path _ path =>
    refine .place ?_
    by_cases empty : path.isEmpty = true
    · right
      rw [Path.absolute, if_pos empty]
      exact empty
    · exact .inl (Path.isAbsolute_absolute rooted (Bool.eq_false_iff.mpr empty))
  | place is there => exact .place (.inl ((collected.classpath _ is).absolute _ there))
  | runtimeModule is there => exact .runtimeModule is there

theorem Looks.regular {root : Root} (looks : search.Looks root) (collected : search.Collected) :
    root.Regular := by
  cases looks with
  | place absolute => exact .place absolute
  | runtimeModule is there => exact (collected.store _ is).regular.roots _ there

theorem Looks.agree {root other : Root} (looks : search.Looks root) (looks' : search.Looks other)
    (collected : search.Collected) : root.Agree other := by
  cases looks with
  | place absolute => cases looks' <;> trivial
  | runtimeModule is there =>
    cases looks' with
    | place absolute => trivial
    | runtimeModule is' there' =>
      obtain rfl := Option.some.inj (is.symm.trans is')
      have names := (collected.store _ is).regular.names
      exact List.inj_on_of_nodup_map names there there'

end Search

end ClassAtlas
