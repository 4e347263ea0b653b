import ClassAtlas.Proofs.Disk.Plain
import ClassAtlas.Proofs.Explore.Roots
import ClassAtlas.Proofs.Explore.Uris

/-!
# Repeated locations

A location whose URI was met before counts as repeated. That is right where the URI tells the
location, which it does as long as nothing in a path reads like a separator that a URI does not
escape (`Search.uris_tell`). Class files whose paths differ in the direction of a slash alone have
one URI, so that the second of them is lost (`Search.run_turned`).
-/

namespace ClassAtlas

/-- The same file, however its path is spelt, or the same entry of the same archive. -/
inductive Storage.Same : Storage → Storage → Prop
  | loose {path other : Path} (same : path.same other = true) : Same (.loose path) (.loose other)
  | archived {archive other : Path} (name : String) (same : archive.same other = true) :
    Same (.archived archive name) (.archived other name)

theorem Path.same_refl (path : Path) : path.same path = true := decide_eq_true rfl

theorem Storage.Same.refl (storage : Storage) : storage.Same storage := by
  cases storage with
  | loose path => exact .loose path.same_refl
  | archived archive name => exact .archived name archive.same_refl

/-! ## One URI -/

namespace Root

theorem Regular.clean {store : Path} {found : RuntimeModule}
    (regular : (runtimeModule store found).Regular) : '/' ∉ found.name.toList := by
  cases regular with
  | packed clean | exploded clean => exact clean

theorem Regular.rooted {store directory : Path} {found : RuntimeModule}
    (regular : (runtimeModule store found).Regular) (source : found.source = .exploded directory) :
    directory.components ≠ [] := by
  cases regular with
  | packed _ packed => exact nomatch source.symm.trans packed
  | exploded _ exploded rooted =>
    cases source.symm.trans exploded
    exact rooted

namespace Gives

section Modules

variable {store store' : Path} {found found' : RuntimeModule} {entry entry' : String}
variable {storage storage' : Storage}

/-- An entry of a module is in one place. -/
theorem same_of_entry
    (gives : (runtimeModule store found).Gives (.moduleEntry store found.name entry storage))
    (gives' : (runtimeModule store' found).Gives (.moduleEntry store' found.name entry' storage'))
    (regular : (runtimeModule store found).Regular) (equal : entry = entry') :
    storage.Same storage' := by
  cases gives with
  | exploded source split =>
    cases gives' with
    | exploded source' split' =>
      cases source.symm.trans source'
      exact .loose (Path.same_of_written (regular.rooted source) split split' equal)
    | packed source' => exact nomatch source.symm.trans source'
  | packed source =>
    cases gives' with
    | exploded source' => exact nomatch source.symm.trans source'
    | packed source' =>
      cases source.symm.trans source'
      rw [equal]
      exact .refl _

theorem same_of_modules
    (gives : (runtimeModule store found).Gives (.moduleEntry store found.name entry storage))
    (gives' : (runtimeModule store' found').Gives (.moduleEntry store' found'.name entry' storage'))
    (regular : (runtimeModule store found).Regular)
    (regular' : (runtimeModule store' found').Regular)
    (agree : (runtimeModule store found).Agree (runtimeModule store' found'))
    (same : (Location.moduleEntry store found.name entry storage).uri =
      (Location.moduleEntry store' found'.name entry' storage').uri) : storage.Same storage' := by
  obtain ⟨names, equal⟩ := moduleEntry_injective regular.clean regular'.clean same
  obtain rfl : found = found' := agree names
  exact same_of_entry gives gives' regular equal

end Modules

variable {root root' : Root} {one other : Location}

/-- What roots give under one URI is in one place, where the URI can be read. -/
theorem same_of_uri (gives : root.Gives one) (gives' : root'.Gives other) (regular : root.Regular)
    (regular' : root'.Regular) (agree : root.Agree root') (plain : one.Plain) (plain' : other.Plain)
    (same : one.uri = other.uri) : one.storage.Same other.storage := by
  have archives := Location.isArchive_congr same
  have given := gives
  have given' := gives'
  cases gives with
  | file absolute =>
    cases gives' with
    | file absolute' =>
      rw [Location.storage, fileUri_injective absolute absolute' plain plain' same]
      exact .refl _
    | jarEntry | exploded | packed => cases archives
  | jarEntry absolute =>
    cases gives' with
    | file => cases archives
    | jarEntry absolute' =>
      obtain ⟨rfl, rfl⟩ := jarEntry_injective absolute absolute' plain plain' same
      exact .refl _
    | exploded | packed => exact absurd same (jarEntry_ne_moduleEntry _ _ _ _ _ _)
  | exploded | packed =>
    cases gives' with
    | file => cases archives
    | jarEntry => exact absurd same.symm (jarEntry_ne_moduleEntry _ _ _ _ _ _)
    | exploded | packed => exact same_of_modules given given' regular regular' agree same

end Gives

end Root

/-! ## Enumerations -/

namespace Enumeration

/-- The location would be counted as repeated. -/
def Repeats (filters : Filters) (enumeration : Enumeration) (location : Location) : Prop :=
  (enumeration.push filters location).repeated = enumeration.repeated + 1

variable {filters : Filters}

theorem repeats_iff {enumeration : Enumeration} {location : Location} :
    enumeration.Repeats filters location ↔ location.uri ∈ enumeration.uris := by
  unfold Repeats push
  by_cases seen : enumeration.uris.contains location.uri = true
  · simp only [if_pos seen, true_iff]
    exact List.contains_iff_mem.mp seen
  · have strange : location.uri ∉ enumeration.uris := mt List.contains_iff_mem.mpr seen
    simp only [if_neg seen, strange, iff_false]
    split
    · exact Nat.ne_of_lt (Nat.lt_succ_self _)
    · exact Nat.ne_of_lt (Nat.lt_succ_self _)

/-- For a repeated location there is one that was kept. -/
theorem exists_kept {front : List Finding} {found : Location}
    (repeats : (ofFindings filters front).Repeats filters found) (back : List Finding) :
    ∃ kept ∈ (ofFindings filters (front ++ back)).locations, kept.uri = found.uri := by
  have seen : found.uri ∈ (ofFindings filters front).uris := repeats_iff.mp repeats
  obtain ⟨other, inside, named⟩ := ((kept_findings filters front).uris _).mp seen
  have met : other ∈ included filters (foundLocations (front ++ back)) := by
    rw [foundLocations, List.filterMap_append, included, List.filter_append]
    exact List.mem_append_left _ inside
  obtain ⟨kept, first, same⟩ := exists_mem_firsts Location.uri met
  rw [locations_ofFindings]
  exact ⟨kept, first, same.trans named⟩

end Enumeration

/-! ## Searches -/

namespace Search

variable {search : Search} {disk : Disk}

/-- A search comes upon a location that it counts as repeated. -/
def Repeats (explorer : Explorer) (disk : Disk) (search : Search) (found : Location) : Prop :=
  ∃ front back, search.findings explorer.walk disk = front ++ .location found :: back ∧
    (Enumeration.ofFindings (explorer.filters ++ search.ownFilters) front).Repeats
      (explorer.filters ++ search.ownFilters) found

theorem exists_gives {options : WalkOptions} (collected : search.Collected)
    (rooted : disk.workingDirectory.isAbsolute = true) {found : Location}
    (h : .location found ∈ search.findings options disk) :
    ∃ root, search.Looks root ∧ root.Gives found := by
  obtain ⟨target, there, explored⟩ := exists_target_of_mem h
  have looks := collected.looks rooted there
  exact ⟨_, looks, Root.gives_explore (looks.regular collected) _ _ explored⟩

theorem same_of_uri {options : WalkOptions} (collected : search.Collected)
    (rooted : disk.workingDirectory.isAbsolute = true) {one other : Location}
    (h : .location one ∈ search.findings options disk)
    (h' : .location other ∈ search.findings options disk) (plain : one.Plain)
    (plain' : other.Plain) (same : one.uri = other.uri) : one.storage.Same other.storage := by
  obtain ⟨root, looks, gives⟩ := exists_gives collected rooted h
  obtain ⟨root', looks', gives'⟩ := exists_gives collected rooted h'
  have agree := looks.agree looks' collected
  have regular := looks.regular collected
  exact gives.same_of_uri gives' regular (looks'.regular collected) agree plain plain' same

/-- Whatever a search comes upon, a URI tells where it is, unless a path holds a backslash or the
path of an archive holds the mark that stands in front of an entry. So a location that is counted as
repeated stands in the enumeration under its URI, and that is the same class up to those paths. -/
theorem uris_tell (explorer : Explorer) (collected : search.Collected)
    (rooted : disk.workingDirectory.isAbsolute = true) :
    (∀ one ∈ foundLocations (search.findings explorer.walk disk),
      ∀ other ∈ foundLocations (search.findings explorer.walk disk),
        one.Plain → other.Plain → one.uri = other.uri → one.storage.Same other.storage) ∧
    ∀ all, search.run explorer disk = .ok all → ∀ found, search.Repeats explorer disk found →
      ∃ kept ∈ all.locations, kept.uri = found.uri ∧
        (kept.Plain → found.Plain → kept.storage.Same found.storage) := by
  constructor
  · intro one inside other inside' plain plain' same
    have h := mem_foundLocations.mp inside
    have h' := mem_foundLocations.mp inside'
    exact same_of_uri collected rooted h h' plain plain' same
  · rintro all given found ⟨front, back, split, repeats⟩
    have reads : ¬ search.Fails explorer.walk disk := by
      intro fails
      rw [run_of_fails fails] at given
      cases given
    rw [run_of_not_fails reads] at given
    cases given
    obtain ⟨kept, listed, named⟩ := Enumeration.exists_kept repeats (.location found :: back)
    rw [← split] at listed
    refine ⟨kept, listed, named, fun plain plain' => ?_⟩
    have met : .location kept ∈ search.findings explorer.walk disk := by
      rw [locations_ofFindings] at listed
      have inside := List.mem_of_mem_filter (mem_of_mem_firsts Location.uri listed)
      exact mem_foundLocations.mp inside
    have met' : .location found ∈ search.findings explorer.walk disk := by
      rw [split]
      exact List.mem_append_right _ List.mem_cons_self
    exact same_of_uri collected rooted met met' plain plain' named

/-- A disk with two class files whose paths differ in the direction of a slash. -/
def turnedDisk : Disk where
  root := .directory [("p", .directory [("A.class", .file [])]), ("p\\A.class", .file [])]
  workingDirectory := ⟨"/"⟩

theorem classFileAt_turnedDisk : ClassFileAt turnedDisk ⟨"/p/A.class"⟩ :=
  ⟨by decide, by decide, by decide, [], Disk.find_of_under ["p", "A.class"] rfl (by decide) rfl⟩

/-- A class file that is asked for twice is counted as repeated, and kept where it is. -/
theorem uris_tell_turnedDisk :
    (Collected (roots [⟨"/p/A.class"⟩, ⟨"/p/A.class"⟩]) ∧
      turnedDisk.workingDirectory.isAbsolute = true) ∧
    ∃ all, (roots [⟨"/p/A.class"⟩, ⟨"/p/A.class"⟩]).run {} turnedDisk = .ok all ∧
      all.repeated = 1 ∧
      ∃ kept ∈ all.locations, kept.uri = "file:///p/A.class" ∧
        (kept.Plain → kept.storage.Same (.loose ⟨"/p/A.class"⟩)) := by
  have each : ∀ path ∈ [(⟨"/p/A.class"⟩ : Path), ⟨"/p/A.class"⟩], ClassFileAt turnedDisk path := by
    intro path inside
    rcases List.mem_pair.mp inside with rfl | rfl
    · exact classFileAt_turnedDisk
    · exact classFileAt_turnedDisk
  have collected : Collected (roots [⟨"/p/A.class"⟩, ⟨"/p/A.class"⟩]) :=
    ⟨fun _ is => (nomatch is), fun _ is => (nomatch is)⟩
  have rooted : turnedDisk.workingDirectory.isAbsolute = true := by decide
  have given := run_classFiles {} (List.cons_ne_nil _ _) each
  have repeats : Repeats {} turnedDisk (roots [⟨"/p/A.class"⟩, ⟨"/p/A.class"⟩])
      (.file ⟨"/p"⟩ ⟨"/p/A.class"⟩) := by
    refine ⟨[.location (.file ⟨"/p"⟩ ⟨"/p/A.class"⟩)], [], ?_,
      Enumeration.repeats_iff.mpr (by decide)⟩
    rw [findings_classFiles _ each]
    decide +kernel
  obtain ⟨kept, inside, named, same⟩ := (uris_tell {} collected rooted).2 _ given _ repeats
  have plain : (Location.file ⟨"/p"⟩ ⟨"/p/A.class"⟩).Plain := by decide
  exact ⟨⟨collected, rooted⟩, _, given, by decide +kernel, kept, inside, named,
    fun plain' => same plain' plain⟩

/-- Of two class files whose paths differ in the direction of slashes alone, the second is counted
as repeated and lost. -/
theorem run_turned (explorer : Explorer) {path other : Path}
    (there : ClassFileAt disk path) (there' : ClassFileAt disk other)
    (turned : slashed path = slashed other)
    (includes : explorer.filters.includes (.file (path.parent?.getD ⟨""⟩) path) = true) :
    ∃ all, (roots [path, other]).run explorer disk = .ok all ∧
      all.locations = [.file (path.parent?.getD ⟨""⟩) path] ∧ all.repeated = 1 := by
  have each : ∀ given ∈ [path, other], ClassFileAt disk given :=
    List.forall_mem_cons.mpr ⟨there, List.forall_mem_singleton.mpr there'⟩
  have uris : fileUri other = fileUri path := by
    apply String.toList_injective
    rw [toList_fileUri, toList_fileUri, turned]
  have first : ({} : Enumeration).push explorer.filters (.file (path.parent?.getD ⟨""⟩) path) =
      { locations := [.file (path.parent?.getD ⟨""⟩) path], uris := [fileUri path] } := by
    rw [Enumeration.push, if_neg (by simp), if_pos includes]
    rfl
  have second : Enumeration.push explorer.filters
      { locations := [.file (path.parent?.getD ⟨""⟩) path], uris := [fileUri path] }
      (.file (other.parent?.getD ⟨""⟩) other) =
      { locations := [.file (path.parent?.getD ⟨""⟩) path], uris := [fileUri path],
        repeated := 1 } := by
    rw [Enumeration.push, Location.uri, uris, if_pos (by simp)]
  have whole : Enumeration.ofFindings explorer.filters
      ([path, other].map fun given => .location (.file (given.parent?.getD ⟨""⟩) given)) =
      { locations := [.file (path.parent?.getD ⟨""⟩) path], uris := [fileUri path],
        repeated := 1 } := by
    show Enumeration.push _ (Enumeration.push _ {} _) _ = _
    rw [first, second]
  refine ⟨_, run_classFiles explorer (List.cons_ne_nil _ _) each, ?_⟩
  rw [whole]
  exact ⟨rfl, rfl⟩

example : slashed ⟨"/p/A.class"⟩ = slashed ⟨"/p\\A.class"⟩ := by decide

end Search

end ClassAtlas
