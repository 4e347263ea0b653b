import ClassAtlas.Proofs.Disk.Linkless
import ClassAtlas.Proofs.Explore.Searches

/-!
# What a root gives

`Root.Gives root location`: the location is one that can be found in the root. `Root.gives_explore`:
whatever is found in a regular root is given by it. The files and archives that a root gives have
absolute paths, and a class of a module is stored where the module is.
-/

namespace ClassAtlas

/-! ## Paths -/

theorem Path.isAbsolute_join {path : Path} (h : path.isAbsolute = true) (rest : Path) :
    (path.join rest).isAbsolute = true := by
  by_cases absolute : rest.isAbsolute = true
  · rw [join_of_isAbsolute absolute]
    exact absolute
  · rw [isAbsolute_join_eq (isEmpty_of_isAbsolute h) (Bool.eq_false_iff.mpr absolute)]
    exact h

/-- A path is absolute against an absolute directory, unless there is no path at all. -/
theorem Path.isAbsolute_absolute {workingDirectory path : Path}
    (h : workingDirectory.isAbsolute = true) (nonempty : path.isEmpty = false) :
    (absolute workingDirectory path).isAbsolute = true := by
  have steps : ∀ (names : List Component) (start : Path), start.isAbsolute = true →
      (names.foldl (fun path step => path.join ⟨step.text⟩) start).isAbsolute = true := by
    intro names
    induction names with
    | nil => exact fun start absolute => absolute
    | cons name names ih => exact fun start absolute => ih _ (isAbsolute_join absolute _)
  have start : ∀ twoSlashes : Bool, Path.isAbsolute (if twoSlashes = true then ⟨"//"⟩
      else if path.isAbsolute = true then ⟨"/"⟩ else workingDirectory) = true := by
    intro twoSlashes
    split
    · decide
    · split
      · decide
      · exact h
  unfold absolute
  rw [nonempty, if_neg Bool.false_ne_true]
  dsimp only
  split
  · exact isAbsolute_join (steps _ _ (start _)) _
  · exact steps _ _ (start _)

/-! ## Walks -/

namespace Disk

theorem isAbsolute_of_mem_children {disk : Disk} {path : Path} {children : List Path}
    (absolute : path.isAbsolute = true) (h : disk.children path = .ok children) :
    ∀ child ∈ children, child.isAbsolute = true := by
  obtain ⟨entries, _, member⟩ := children_eq_ok h
  intro child there
  obtain ⟨entry, _, rfl⟩ := (member child).mp there
  exact Path.isAbsolute_join absolute _

theorem isAbsolute_of_mem_walk {disk : Disk} {options : WalkOptions} {start path : Path}
    {isFile : Bool} (absolute : start.isAbsolute = true)
    (h : .visited path isFile ∈ disk.walk options start) : path.isAbsolute = true := by
  obtain ⟨_, reached, _, _⟩ := reaches_of_mem_walk h
  exact reached.of_down (fun _ _ => isAbsolute_of_mem_children) absolute

end Disk

/-! ## Roots -/

/-- A place is asked for by an absolute path or by none; a module has a name without slashes, and
its directory is no bare root of anything. -/
inductive Root.Regular : Root → Prop
  | place {path : Path} (absolute : path.isAbsolute = true ∨ path.isEmpty = true) :
    Regular (.place path)
  | packed {store archive : Path} {found : RuntimeModule} (clean : '/' ∉ found.name.toList)
      (source : found.source = .packed archive) : Regular (.runtimeModule store found)
  | exploded {store directory : Path} {found : RuntimeModule} (clean : '/' ∉ found.name.toList)
      (source : found.source = .exploded directory) (rooted : directory.components ≠ []) :
    Regular (.runtimeModule store found)

/-- The locations that can be found in a root. -/
inductive Root.Gives : Root → Location → Prop
  | file {place directory path : Path} (absolute : path.isAbsolute = true) :
    Gives (.place place) (.file directory path)
  | jarEntry {place archive : Path} {name : String} (absolute : archive.isAbsolute = true) :
    Gives (.place place) (.jarEntry archive name)
  | exploded {store directory path : Path} {found : RuntimeModule} {below : List Path.Component}
      (source : found.source = .exploded directory)
      (split : path.componentsBelow? directory = some below) :
    Gives (.runtimeModule store found)
      (.moduleEntry store found.name (Path.written below) (.loose path))
  | packed {store archive : Path} {found : RuntimeModule} {entry : String}
      (source : found.source = .packed archive) :
    Gives (.runtimeModule store found)
      (.moduleEntry store found.name entry (.archived archive (moduleClasses ++ entry)))

theorem mem_foundLocations {findings : List Finding} {found : Location} :
    found ∈ foundLocations findings ↔ .location found ∈ findings := by
  unfold foundLocations
  rw [List.mem_filterMap]
  constructor
  · rintro ⟨finding, inside, tells⟩
    cases finding with
    | location other =>
      cases tells
      exact inside
    | failure cause => cases tells
  · exact fun inside => ⟨_, inside, rfl⟩

namespace Exploration

/-- Every location that is found satisfies the condition. -/
def All (P : Location → Prop) (exploration : Exploration) : Prop :=
  ∀ found, .location found ∈ exploration.findings → P found

end Exploration

namespace Root

variable {disk : Disk} {options : WalkOptions}

/-- A place that is somewhere on the disk has a path, so that the path is absolute. -/
theorem Regular.isAbsolute {path : Path} {tree : FileTree} (regular : (Root.place path).Regular)
    (there : disk.find path = .ok tree) : path.isAbsolute = true := by
  cases regular with
  | place absolute =>
    rcases absolute with absolute | empty
    · exact absolute
    · rw [Disk.isEmpty_of_find there] at empty
      cases empty

theorem ComesUpon.isAbsolute {place path : Path} {package? : Option String} {isFile : Bool}
    (upon : ComesUpon disk options place package? (.visited path isFile))
    (regular : (Root.place place).Regular) (around : disk.isDirectory place = true) :
    path.isAbsolute = true := by
  obtain ⟨_, there⟩ := Disk.isDirectory_eq_true_iff.mp around
  have absolute := regular.isAbsolute there
  refine Disk.isAbsolute_of_mem_walk ?_ upon.visited
  cases package? with
  | none => exact absolute
  | some package => exact Path.isAbsolute_join absolute _

/-- Whatever is found in a regular root is given by it. -/
theorem gives_explore {root : Root} (regular : root.Regular) (package? : Option String) :
    (root.explore disk options package?).All root.Gives := by
  intro found inside
  cases finds_of_mem_explore inside with
  | file around upon => exact .file (upon.isAbsolute regular around)
  | inner around upon => exact .jarEntry (upon.isAbsolute regular around)
  | archive there => exact .jarEntry (regular.isAbsolute there)
  | single there => exact .file (regular.isAbsolute there)
  | exploded source _ _ _ split => exact .exploded source split
  | packed source => exact .packed source

end Root

/-! ## What a search keeps -/

namespace Search

variable {search : Search} {explorer : Explorer} {disk : Disk}

/-- What is kept is included and was found in a target. -/
theorem exists_target_of_kept {all : Enumeration} (h : search.run explorer disk = .ok all)
    {location : Location} (kept : location ∈ all.locations) :
    Filters.includes (explorer.filters ++ search.ownFilters) location = true ∧
      ∃ target ∈ search.targets disk,
        .location location ∈ (target.explore disk explorer.walk).findings := by
  rw [eq_of_run h, locations_ofFindings] at kept
  obtain ⟨listed, included⟩ := List.mem_filter.mp (mem_of_mem_firsts Location.uri kept)
  exact ⟨included, exists_target_of_mem (mem_foundLocations.mp listed)⟩

/-- What is included and found in a target is kept, or another location of its URI is. -/
theorem exists_kept_of_found {all : Enumeration} (h : search.run explorer disk = .ok all)
    {target : Target} (there : target ∈ search.targets disk) {found : Location}
    (inside : .location found ∈ (target.explore disk explorer.walk).findings)
    (included : Filters.includes (explorer.filters ++ search.ownFilters) found = true) :
    ∃ kept ∈ all.locations, kept.uri = found.uri := by
  have finding : .location found ∈ search.findings explorer.walk disk :=
    List.mem_flatMap.mpr ⟨target, there, List.mem_append_left _ inside⟩
  rw [eq_of_run h, locations_ofFindings]
  exact exists_mem_firsts Location.uri
    (List.mem_filter.mpr ⟨mem_foundLocations.mpr finding, included⟩)

/-- One target that can be read is enough for a search not to fail. -/
theorem exists_run_of_target {target : Target} (there : target ∈ search.targets disk)
    (readable : (target.explore disk explorer.walk).error = none) :
    ∃ all, search.run explorer disk = .ok all := by
  have reads : ¬ search.Fails explorer.walk disk := by
    intro fails
    have failed := fails target there
    rw [readable] at failed
    cases failed
  exact ⟨_, run_of_not_fails reads⟩

end Search

end ClassAtlas
