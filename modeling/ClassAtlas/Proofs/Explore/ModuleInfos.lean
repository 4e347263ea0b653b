import ClassAtlas.Proofs.Disk.Joined
import ClassAtlas.Proofs.Disk.Plain
import ClassAtlas.Proofs.Explore.Findings

/-!
# Module descriptors

A module descriptor looks like a class file and is none. Walks leave it out, and so do the listings
of archives and modules, whatever they are restricted to. A root that is itself the file of a module
descriptor is the one place where it is let through (`Search.namesDescriptor_iff`).
-/

namespace ClassAtlas

/-! ## Entries -/

/-- The entry is that of a module descriptor. -/
def NamesDescriptor (entry : String) : Prop :=
  entry = moduleInfoFile ∨ hasEnding ("/" ++ moduleInfoFile) entry = true

theorem hasEnding_iff {ending text : String} :
    hasEnding ending text = true ↔ ending.toList <:+ text.toList :=
  List.isSuffixOf_iff_suffix

/-- An ending without slashes is that of what stands behind a slash. -/
theorem hasEnding_append_slash {ending : String} (clean : '/' ∉ ending.toList)
    {front rest : List Char} {entry : String} (written : entry.toList = front ++ '/' :: rest) :
    hasEnding ending entry = hasEnding ending (String.ofList rest) := by
  rw [Bool.eq_iff_iff, hasEnding_iff, hasEnding_iff, written, String.toList_ofList]
  constructor
  · intro ends
    rcases List.suffix_or_suffix_of_suffix ends (List.suffix_append _ _) with short | long
    · rcases List.suffix_cons_iff.mp short with same | short
      · rw [same] at clean
        exact absurd List.mem_cons_self clean
      · exact short
    · exact absurd (long.mem List.mem_cons_self) clean
  · intro ends
    exact ends.trans ((List.suffix_cons _ _).trans (List.suffix_append _ _))

theorem clean_moduleInfoFile : '/' ∉ moduleInfoFile.toList := by decide

/-- What stands behind the last slash decides. -/
theorem namesDescriptor_iff_last {entry : String} :
    NamesDescriptor entry ↔
      (entry.toList.splitOn '/').getLast? = some moduleInfoFile.toList := by
  constructor
  · rintro (rfl | ending)
    · rw [List.splitOn_eq_singleton clean_moduleInfoFile]
      rfl
    · obtain ⟨front, whole⟩ := hasEnding_iff.mp ending
      have slash : ("/" ++ moduleInfoFile).toList = '/' :: moduleInfoFile.toList := rfl
      rw [← whole, slash, List.splitOn_append_cons_self,
        List.splitOn_eq_singleton clean_moduleInfoFile, List.getLast?_concat]
  · intro last
    cases split : splitAtLast '/' entry.toList with
    | none =>
      rw [List.splitOn_eq_singleton (splitAtLast_eq_none_iff.mp split)] at last
      exact .inl (String.toList_injective (Option.some.inj last))
    | some parts =>
      obtain ⟨front, back⟩ := parts
      obtain ⟨whole, clean⟩ := eq_append_of_splitAtLast split
      rw [whole, List.splitOn_append_cons_self, List.splitOn_eq_singleton clean,
        List.getLast?_concat] at last
      right
      rw [hasEnding_iff, whole, Option.some.inj last]
      exact List.suffix_append front _

/-- What stands in front of a slash does not matter. -/
theorem namesDescriptor_append_slash {front rest : List Char} {entry : String}
    (written : entry.toList = front ++ '/' :: rest) :
    NamesDescriptor entry ↔ NamesDescriptor (String.ofList rest) := by
  rw [namesDescriptor_iff_last, namesDescriptor_iff_last, written, List.splitOn_append_cons_self,
    List.getLast?_append_of_ne_nil _ (List.splitOn_ne_nil _ _), String.toList_ofList]

/-- The directory of an archive that holds no classes. -/
def metaInf : String := "META-INF/"

theorem isImportableEntry_iff {name : String} :
    isImportableEntry name = true ↔ hasEnding classFileEnding name = true ∧
      ¬ NamesDescriptor name ∧ ¬ metaInf.toList <+: name.toList := by
  have start : name.startsWith "META-INF/" = true ↔ metaInf.toList <+: name.toList :=
    String.startsWith_string_iff
  rw [isImportableEntry, NamesDescriptor, ← start]
  simp only [Bool.and_eq_true, Bool.not_eq_true', decide_eq_true_eq, not_or, Bool.not_eq_true]
  tauto

theorem not_namesDescriptor_of_importable {entry : String} (h : isImportableEntry entry = true) :
    ¬ NamesDescriptor entry :=
  (isImportableEntry_iff.mp h).2.1

/-! ## Directories of packages -/

/-- The text is empty or ends in a slash, so that what follows it is an entry of its own. -/
def IsDirectoryPrefix (directory : String) : Prop :=
  directory = "" ∨ ∃ front, directory.toList = front ++ ['/']

theorem isDirectoryPrefix_packagePrefix (package : String) :
    IsDirectoryPrefix (packagePrefix package) := by
  unfold packagePrefix
  split
  · exact .inl rfl
  · exact .inr ⟨_, String.toList_ofList⟩

theorem IsDirectoryPrefix.namesDescriptor_append {directory : String}
    (h : IsDirectoryPrefix directory) {rest : List Char} {entry : String}
    (written : entry.toList = directory.toList ++ rest) :
    NamesDescriptor entry ↔ NamesDescriptor (String.ofList rest) := by
  rcases h with rfl | ⟨front, slash⟩
  · have same : entry = String.ofList rest := by
      rw [← String.ofList_toList (s := entry), written]
      rfl
    rw [same]
  · rw [slash, List.append_assoc, List.singleton_append] at written
    exact namesDescriptor_append_slash written

/-! ## Files -/

namespace Path

theorem toList_written_cons_cons (first second : Component) (others : List Component) :
    (written (first :: second :: others)).toList =
      first.text.toList ++ '/' :: (written (second :: others)).toList := by
  rw [written, written, String.toList_intercalate, String.toList_intercalate]
  rfl

/-- Only a name that is a descriptor's is written as one. -/
theorem getLast?_of_namesDescriptor {steps : List Component}
    (clean : ∀ text, .name text ∈ steps → '/' ∉ text.toList)
    (h : NamesDescriptor (written steps)) : steps.getLast? = some (.name moduleInfoFile) := by
  match steps with
  | [] => rcases h with whole | ending <;> contradiction
  | [step] =>
    have single : written [step] = step.text := String.toList_injective (by
      rw [written, String.toList_intercalate]
      simp)
    rw [single] at h
    cases step with
    | root | current | parent => rcases h with whole | ending <;> contradiction
    | name text =>
      have last := namesDescriptor_iff_last.mp h
      rw [Component.text, List.splitOn_eq_singleton (clean text List.mem_cons_self)] at last
      rw [String.toList_injective (Option.some.inj last)]
      rfl
  | first :: second :: others =>
    rw [namesDescriptor_append_slash (toList_written_cons_cons first second others),
      String.ofList_toList] at h
    rw [List.getLast?_cons_cons]
    have rest : ∀ text, .name text ∈ second :: others → '/' ∉ text.toList := fun text inside =>
      clean text (List.mem_cons_of_mem _ inside)
    exact getLast?_of_namesDescriptor rest h

theorem isModuleInfo_iff {path : Path} :
    path.isModuleInfo = true ↔ path.components.getLast? = some (.name moduleInfoFile) := by
  rw [isModuleInfo, decide_eq_true_iff, fileName?_eq_some_iff]

/-- What a path has below a directory ends as the path does. -/
theorem isModuleInfo_of_below {path directory : Path} {below : List Component}
    (split : path.componentsBelow? directory = some below)
    (h : NamesDescriptor (written below)) : path.isModuleInfo = true := by
  have whole := components_of_below split
  have clean : ∀ text, .name text ∈ below → '/' ∉ text.toList := by
    intro text inside
    have there : .name text ∈ path.components := by
      rw [whole]
      exact List.mem_append_right _ inside
    exact (inner_of_name there).clean
  have last := getLast?_of_namesDescriptor clean h
  have nonempty : below ≠ [] := by
    rintro rfl
    cases last
  rw [isModuleInfo_iff, whole, List.getLast?_append_of_ne_nil _ nonempty, last]

end Path

theorem Location.isModuleInfo_of_namesDescriptor {root path : Path}
    (h : NamesDescriptor (Location.file root path).entry) : path.isModuleInfo = true := by
  rw [Location.entry] at h
  split at h
  next below split => exact Path.isModuleInfo_of_below split h
  next =>
    cases named : path.fileName? with
    | none =>
      rw [named] at h
      rcases h with whole | ending <;> contradiction
    | some name =>
      rw [named, Option.getD_some, namesDescriptor_iff_last,
        List.splitOn_eq_singleton (Path.clean_fileName named)] at h
      rw [Path.isModuleInfo, named, String.toList_injective (Option.some.inj h)]
      rfl

/-- A descriptor in its own directory. -/
theorem Location.namesDescriptor_parent {path : Path} (h : path.isModuleInfo = true) :
    NamesDescriptor (Location.file (path.parent?.getD ⟨""⟩) path).entry := by
  obtain ⟨parent, up, whole⟩ := Path.exists_parent (of_decide_eq_true h)
  have split : path.componentsBelow? parent = some [.name moduleInfoFile] :=
    List.isPrefixOf?_eq_some_iff_append_eq.mpr whole.symm
  rw [up, Option.getD_some, Location.entry, split]
  exact .inl rfl

/-! ## Roots -/

/-- The location is not that of a module descriptor. -/
def Location.Ordinary (location : Location) : Prop := ¬ NamesDescriptor location.entry

theorem Location.ordinary_file (root : Path) {path : Path} (h : path.isModuleInfo = false) :
    (Location.file root path).Ordinary := by
  intro names
  rw [isModuleInfo_of_namesDescriptor names] at h
  cases h

/-- What is listed below a directory is no module descriptor, whatever is in front of it. -/
theorem not_namesDescriptor_of_listed {archive : Archive} {around full directory entry : String}
    (front : List Char) (directed : IsDirectoryPrefix directory)
    (below : around.toList = front ++ directory.toList)
    (whole : full.toList = front ++ entry.toList)
    (listed : full ∈ archive.classEntries around) : ¬ NamesDescriptor entry := by
  obtain ⟨rest, written, importable⟩ := Root.importable_of_mem_classEntries listed
  rw [whole, below, List.append_assoc] at written
  rw [directed.namesDescriptor_append (List.append_cancel_left written)]
  exact not_namesDescriptor_of_importable importable

/-- The path is that of a module descriptor that is a file. -/
structure Path.IsDescriptorOn (disk : Disk) (path : Path) : Prop where
  named : path.isModuleInfo = true
  ending : path.isClassFile = true
  single : ∃ tree, disk.find path = .ok tree ∧ tree.isDirectory = false

theorem Path.isArchive_of_isModuleInfo {path : Path} (h : path.isModuleInfo = true) :
    path.isArchive = false := by
  have named : path.fileName? = some moduleInfoFile := of_decide_eq_true h
  have extension : path.extension? = some "class" := by
    rw [extension?, stemAndExtension?, named]
    decide
  rw [isArchive, hasExtension, hasExtension, extension]
  decide

namespace Target

variable {disk : Disk} {options : WalkOptions}

/-- A target is restricted to what stands in a directory, if to anything. -/
def Directed (target : Target) : Prop :=
  ∀ package, target.package? = some package → IsDirectoryPrefix package

/-- The location of a descriptor that is a root of its own. -/
def IsDescriptor (disk : Disk) (target : Target) (found : Location) : Prop :=
  ∃ path, target = { root := .place path } ∧ path.IsDescriptorOn disk ∧
    found = .file (path.parent?.getD ⟨""⟩) path

theorem Directed.getD {target : Target} (directed : target.Directed) :
    IsDirectoryPrefix (target.package?.getD "") := by
  cases restricted : target.package? with
  | none => exact .inl rfl
  | some package => exact directed package restricted

theorem ordinary_or_descriptor {target : Target} (directed : target.Directed) :
    (target.explore disk options).All fun found =>
      found.Ordinary ∨ target.IsDescriptor disk found := by
  have packaged := directed.getD
  obtain ⟨root, package?⟩ := target
  intro found inside
  cases Root.finds_of_mem_explore inside with
  | file _ _ _ other => exact .inl (Location.ordinary_file _ other)
  | inner _ _ _ _ listed =>
    exact .inl (not_namesDescriptor_of_listed [] (.inl rfl) rfl rfl listed)
  | archive _ _ _ _ listed =>
    exact .inl (not_namesDescriptor_of_listed [] packaged rfl rfl listed)
  | @single path tree there single ending =>
    -- Here nobody asks for the name, so that the descriptor passes.
    cases named : path.isModuleInfo with
    | false => exact .inl (Location.ordinary_file _ named)
    | true => exact .inr ⟨path, rfl, ⟨named, ending, tree, there, single⟩, rfl⟩
  | exploded _ _ _ other split =>
    left
    intro names
    rw [Path.isModuleInfo_of_below split names] at other
    cases other
  | packed _ _ listed =>
    exact .inl (not_namesDescriptor_of_listed moduleClasses.toList packaged String.toList_append
      String.toList_append listed)

end Target

/-! ## Searches -/

namespace Search

variable {search : Search} {explorer : Explorer} {disk : Disk}

theorem Takes.isDirectoryPrefix {package : String} (takes : search.Takes (some package)) :
    IsDirectoryPrefix package := by
  cases search with
  | packages classpath store? names =>
    obtain ⟨name, _, same⟩ := takes
    rw [Option.some.inj same]
    exact isDirectoryPrefix_packagePrefix name
  | roots | entireClasspath | looseClasspath | runtimeModules => cases takes

theorem directed_of_mem_targets {target : Target} (h : target ∈ search.targets disk) :
    target.Directed := by
  intro package restricted
  cases covers_of_mem_targets h with
  | path => cases restricted
  | place _ _ takes | runtimeModule _ _ takes =>
    cases restricted
    exact takes.isDirectoryPrefix

/-- The search is asked for a module descriptor by the path of its file. -/
def AsksForDescriptor (disk : Disk) (search : Search) (path : Path) : Prop :=
  { root := .place path } ∈ search.targets disk ∧ path.IsDescriptorOn disk

/-- Whatever is searched, a location is that of a module descriptor exactly if its file was itself
asked for as a root. Such a file is kept wherever the filters include it. -/
theorem namesDescriptor_iff {all : Enumeration} (h : search.run explorer disk = .ok all) :
    (∀ location ∈ all.locations, NamesDescriptor location.entry ↔
      ∃ path, search.AsksForDescriptor disk path ∧
        location = .file (path.parent?.getD ⟨""⟩) path) ∧
    ∀ path, search.AsksForDescriptor disk path →
      Filters.includes (explorer.filters ++ search.ownFilters)
        (.file (path.parent?.getD ⟨""⟩) path) = true →
      ∃ location ∈ all.locations, location.uri = fileUri path := by
  constructor
  · intro location kept
    constructor
    · intro names
      obtain ⟨_, target, there, found⟩ := exists_target_of_kept h kept
      rcases Target.ordinary_or_descriptor (directed_of_mem_targets there) _ found with
        ordinary | ⟨path, rfl, descriptor, same⟩
      · exact absurd names ordinary
      · exact ⟨path, ⟨there, descriptor⟩, same⟩
    · rintro ⟨path, asked, rfl⟩
      exact Location.namesDescriptor_parent asked.2.named
  · rintro path ⟨there, descriptor⟩ included
    obtain ⟨tree, found, single⟩ := descriptor.single
    have explored := Target.explore_classFile found single
      (Path.isArchive_of_isModuleInfo descriptor.named) descriptor.ending explorer.walk
    have listed : .location (.file (path.parent?.getD ⟨""⟩) path) ∈
        (Target.explore disk explorer.walk { root := .place path }).findings := by
      rw [explored]
      exact List.mem_singleton_self _
    exact exists_kept_of_found h there listed included

/-- A disk with a class and a module descriptor. -/
def describedDisk : Disk where
  root := .directory [("A.class", .file []), ("module-info.class", .file [])]
  workingDirectory := ⟨"/"⟩

/-- Asked for by its path, the descriptor is listed as if it were a class. -/
theorem namesDescriptor_describedDisk :
    ∃ all, (roots [⟨"/A.class"⟩, ⟨"/module-info.class"⟩]).run {} describedDisk = .ok all ∧
      all.locations = [.file ⟨"/"⟩ ⟨"/A.class"⟩, .file ⟨"/"⟩ ⟨"/module-info.class"⟩] ∧
      ¬ NamesDescriptor (Location.file ⟨"/"⟩ ⟨"/A.class"⟩).entry ∧
      NamesDescriptor (Location.file ⟨"/"⟩ ⟨"/module-info.class"⟩).entry := by
  have first : ClassFileAt describedDisk ⟨"/A.class"⟩ :=
    ⟨by decide, by decide, by decide, [], Disk.find_of_under ["A.class"] rfl (by decide) rfl⟩
  have second : ClassFileAt describedDisk ⟨"/module-info.class"⟩ :=
    ⟨by decide, by decide, by decide, [],
      Disk.find_of_under ["module-info.class"] rfl (by decide) rfl⟩
  have each := List.forall_mem_cons.mpr ⟨first, List.forall_mem_singleton.mpr second⟩
  have run := run_classFiles {} (List.cons_ne_nil _ _) each
  obtain ⟨bytes, found⟩ := second.found
  have asked : (roots [⟨"/A.class"⟩, ⟨"/module-info.class"⟩]).AsksForDescriptor describedDisk
      ⟨"/module-info.class"⟩ := by
    constructor
    · rw [targets_classFiles each]
      exact List.mem_cons_of_mem _ List.mem_cons_self
    · exact ⟨by decide, second.named, _, found, rfl⟩
  obtain ⟨exact, _⟩ := namesDescriptor_iff run
  refine ⟨_, run, by decide +kernel, ?_, ?_⟩
  · intro names
    obtain ⟨path, descriptor, same⟩ := (exact _ (by decide +kernel)).mp names
    obtain rfl : path = ⟨"/A.class"⟩ := (Location.file.inj same).2.symm
    exact absurd descriptor.2.named (by decide)
  · exact (exact _ (by decide +kernel)).mpr ⟨_, asked, by decide⟩

end Search

end ClassAtlas
