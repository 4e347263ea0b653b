import ClassAtlas.Proofs.Explore.ModuleInfos
import ClassAtlas.Proofs.Explore.Packaged

/-!
# Packages as subtrees

The segments of a package are the directories that lead to it. On a disk without links a search for
packages returns the class files that have the segments of one of them as the first directories
below a root, and each URI once, however packages and roots overlap (`Search.packages_exact`).
Segments are compared as a whole, so that `p.q` leads to `p/q` and below, and not to `p/qr`.
-/

namespace ClassAtlas

/-! ## Names of packages -/

/-- A segment of a package. -/
structure IsSegment (segment : String) : Prop where
  nonempty : segment ≠ ""
  single : '.' ∉ segment.toList
  clean : '/' ∉ segment.toList

instance : DecidablePred IsSegment := fun segment =>
  decidable_of_iff (segment ≠ "" ∧ '.' ∉ segment.toList ∧ '/' ∉ segment.toList)
    ⟨fun h => ⟨h.1, h.2.1, h.2.2⟩, fun h => ⟨h.nonempty, h.single, h.clean⟩⟩

theorem IsSegment.fileName {segment : String} (h : IsSegment segment) : Path.FileName segment := by
  have other : ∀ dots : String, '.' ∈ dots.toList → segment ≠ dots := by
    rintro dots dot rfl
    exact h.single dot
  exact ⟨h.nonempty, h.clean, other "." (by decide), other ".." (by decide)⟩

/-- Nothing is trimmed from a text without empty parts. -/
theorem trimWhere_of_splitOn {mark : Char} {text : List Char} (h : [] ∉ text.splitOn mark) :
    trimWhere (· = mark) text = text := by
  have first : text.dropWhile (· = mark) = text := by
    cases text with
    | nil => rfl
    | cons c rest =>
      by_cases same : c = mark
      · simp [same, List.splitOn_cons_eq_if_modifyHead] at h
      · simp [same]
  have last : text.reverse.dropWhile (· = mark) = text.reverse := by
    rcases List.eq_nil_or_concat text with rfl | ⟨front, c, rfl⟩
    · rfl
    · by_cases same : c = mark
      · simp [same, List.splitOn_append_cons_self] at h
      · simp [same]
  rw [trimWhere, first, last, List.reverse_reverse]

theorem slashed_of_not_mem {name : List Char} (h : '.' ∉ name) :
    ClassName.slashed name = name := by
  have each : ∀ c ∈ name, (if c = '.' then '/' else c) = c := by
    intro c inside
    apply if_neg
    rintro rfl
    exact h inside
  rw [ClassName.slashed, List.map_congr_left each, List.map_id']

theorem slashed_intercalate {parts : List (List Char)} (single : ∀ part ∈ parts, '.' ∉ part) :
    ClassName.slashed (['.'].intercalate parts) = ['/'].intercalate parts := by
  induction parts with
  | nil => rfl
  | cons first others ih =>
    rw [List.forall_mem_cons] at single
    have own := slashed_of_not_mem single.1
    have rest := ih single.2
    cases others with
    | nil => simp [own]
    | cons second others =>
      rw [ClassName.slashed] at own rest ⊢
      simp [List.intercalate_cons_cons, own, rest]

/-- The steps of a package are its segments. -/
theorem packageSteps_intercalate {segments : List String}
    (each : ∀ segment ∈ segments, IsSegment segment) :
    packageSteps (String.intercalate "." segments) = segments := by
  by_cases empty : segments = []
  · rw [empty]
    rfl
  have parts : ∀ part ∈ segments.map String.toList, part ≠ [] ∧ '.' ∉ part ∧ '/' ∉ part := by
    intro part inside
    obtain ⟨segment, there, rfl⟩ := List.mem_map.mp inside
    have segment := each segment there
    exact ⟨fun empty => segment.nonempty (String.toList_eq_nil_iff.mp empty), segment.single,
      segment.clean⟩
  have filled : segments.map String.toList ≠ [] := by simpa using empty
  have whole : (String.intercalate "." segments).toList =
      ['.'].intercalate (segments.map String.toList) := String.toList_intercalate
  have trimmed : [] ∉ (['.'].intercalate (segments.map String.toList)).splitOn '.' := by
    rw [List.splitOn_intercalate '.' (fun part inside => (parts part inside).2.1) filled]
    exact fun inside => (parts _ inside).1 rfl
  have steps : ((ClassName.slashed (['.'].intercalate (segments.map String.toList))).splitOn '/') =
      segments.map String.toList := by
    rw [slashed_intercalate fun part inside => (parts part inside).2.1]
    exact List.splitOn_intercalate '/' (fun part inside => (parts part inside).2.2) filled
  rw [packageSteps, whole, trimWhere_of_splitOn trimmed]
  split
  next empty =>
    rw [empty] at trimmed
    simp at trimmed
  next =>
    rw [steps]
    simp [Function.comp_def]

/-! ## Paths below a directory -/

namespace Path

variable {base : Path} {name : String} (nonempty : base.isEmpty = false) (named : FileName name)

include nonempty named

/-- An ending without slashes is that of the last name. -/
theorem hasEnding_join {ending : String} (clean : '/' ∉ ending.toList) :
    hasEnding ending (base.join ⟨name⟩).text = hasEnding ending name := by
  obtain ⟨front, written, _⟩ := text_join nonempty named.relative
  rw [hasEnding_append_slash clean written, String.ofList_toList]

theorem isModuleInfo_join : (base.join ⟨name⟩).isModuleInfo = true ↔ name = moduleInfoFile := by
  rw [isModuleInfo, decide_eq_true_iff, fileName?_join_name nonempty named, Option.some_inj]

end Path

namespace Disk

variable {disk : Disk}

/-- There is a class file in these directories below the root, under that name. The file of a module
descriptor is none. A path of too many bytes leads nowhere, so that it has no file. -/
structure ClassBelow (disk : Disk) (root : Path) (directories : List String) (name : String) :
    Prop where
  named : ∀ step ∈ directories ++ [name], Path.FileName step
  ending : hasEnding classFileEnding name = true
  other : name ≠ moduleInfoFile
  file : ∃ bytes, disk.find (root.joinAll (directories ++ [name])) = .ok (.file bytes)

theorem hasClass_joinAll_iff {root : Path} {directories : List String} {name : String}
    (nonempty : root.isEmpty = false) (named : ∀ step ∈ directories ++ [name], Path.FileName step) :
    disk.HasClass (root.joinAll (directories ++ [name])) ↔
      disk.ClassBelow root directories name := by
  have steps := List.forall_mem_append.mp named
  have last := steps.2 name (List.mem_singleton_self name)
  have around := Path.isEmpty_joinAll nonempty steps.1
  have whole : root.joinAll (directories ++ [name]) = (root.joinAll directories).join ⟨name⟩ :=
    Path.joinAll_append root directories [name]
  have ending : (root.joinAll (directories ++ [name])).isClassFile =
      hasEnding classFileEnding name := by
    rw [whole, Path.isClassFile, Path.hasEnding_join around last (by decide)]
  have other := Path.isModuleInfo_join around last
  rw [← whole] at other
  constructor
  · rintro ⟨ends, apart, tree, found, file⟩
    cases tree with
    | directory | link => cases file
    | file bytes =>
      refine ⟨named, ending ▸ ends, ?_, bytes, found⟩
      intro same
      rw [other.mpr same] at apart
      cases apart
  · rintro ⟨_, ends, apart, bytes, found⟩
    exact ⟨ending.trans ends, Bool.eq_false_iff.mpr (mt other.mp apart), _, found, rfl⟩

end Disk

namespace Search

/-! ## Packages in roots -/

/-- The path is that of a class file below a root, in the directory of a package or further down. -/
inductive Selected (disk : Disk) (roots : List Path) (packages : List (List String)) : Path → Prop
  | mk {root : Path} {package directories : List String} {name : String} (there : root ∈ roots)
    (asked : package ∈ packages) (within : package <+: directories)
    (has : disk.ClassBelow root directories name) :
    Selected disk roots packages (root.joinAll (directories ++ [name]))

/-- A search for packages does not fail where there are directories to look in. -/
theorem exists_packages {disk : Disk} {roots : List Path} (filled : roots ≠ [])
    (directed : ∀ root ∈ roots, disk.isDirectory root = true) {names : List String}
    (asked : names ≠ []) (explorer : Explorer) :
    ∃ all, (packages ⟨roots⟩ none names).run explorer disk = .ok all := by
  obtain ⟨root, there⟩ := List.exists_mem_of_ne_nil roots filled
  obtain ⟨name, inside⟩ := List.exists_mem_of_ne_nil names asked
  obtain ⟨entries, around⟩ := Disk.isDirectory_eq_true_iff.mp (directed root there)
  have target : { root := .place root, package? := some (packagePrefix name) } ∈
      (packages ⟨roots⟩ none names).targets disk :=
    mem_targets_packages_iff.mpr ⟨name, inside, _, .place there, rfl⟩
  apply exists_run_of_target target
  rw [Target.explore, Root.explore_place around]
  split <;> rfl

section Packages

variable {disk : Disk} (plain : disk.root.Plain)
include plain

/-- What is on the disk below the directory of a package. -/
theorem reaches_package_iff {root path : Path} {package : List String}
    (nonempty : root.isEmpty = false) (segments : ∀ segment ∈ package, IsSegment segment)
    {tree : FileTree} (found : disk.find path = .ok tree) :
    (∃ n, disk.Reaches (n + 1)
        (root.join ⟨packagePrefix (String.intercalate "." package)⟩) path) ↔
      ∃ names, names ≠ [] ∧ (∀ name ∈ names, Path.FileName name) ∧
        path = root.joinAll (package ++ names) := by
  have named : ∀ segment ∈ package, Path.FileName segment := fun segment inside =>
    (segments segment inside).fileName
  have base := Path.isEmpty_joinAll nonempty named
  rw [packagePrefix_eq, packageSteps_intercalate segments, Path.join_slashedNames root named]
  constructor
  · rintro ⟨n, reached⟩
    obtain ⟨names, count, each, rfl⟩ := reached.exists_joinAll plain
    have filled : names ≠ [] := List.ne_nil_of_length_eq_add_one count
    refine ⟨names, filled, each, ?_⟩
    rw [Path.joinAll_append, Path.joinAll_join_nothing filled base each]
  · rintro ⟨names, filled, each, rfl⟩
    rw [Path.joinAll_append, ← Path.joinAll_join_nothing filled base each] at found ⊢
    obtain ⟨n, count⟩ := Nat.exists_eq_succ_of_ne_zero (mt List.length_eq_zero_iff.mp filled)
    have reached := Disk.Reaches.joinAll plain each (Path.isEmpty_join base rfl) found
    rw [count] at reached
    exact ⟨n, reached⟩

variable {roots : List Path} (directed : ∀ root ∈ roots, disk.isDirectory root = true)
variable {packages : List (List String)}
variable (segments : ∀ package ∈ packages, ∀ segment ∈ package, IsSegment segment)
variable {explorer : Explorer} {all : Enumeration}
include directed segments

/-- What a search for packages returns is selected. -/
theorem selected_of_mem
    (h : explorer.packages disk ⟨roots⟩ none (packages.map (String.intercalate ".")) = .ok all)
    {location : Location} (kept : location ∈ all.locations) :
    ∃ path, Selected disk roots packages path ∧ location.uri = fileUri path := by
  have run : (Search.packages ⟨roots⟩ none (packages.map (String.intercalate "."))).run explorer
      disk = .ok all := h
  obtain ⟨_, target, inside, found⟩ := exists_target_of_kept run kept
  obtain ⟨_, named, root, is, rfl⟩ := mem_targets_packages_iff.mp inside
  obtain ⟨package, asked, rfl⟩ := List.mem_map.mp named
  cases is with
  | runtimeModule given => cases given
  | @place root there =>
    have around := directed root there
    obtain ⟨entries, directory⟩ := Disk.isDirectory_eq_true_iff.mp around
    have nonempty := Disk.isEmpty_of_find directory
    have own := segments package asked
    obtain ⟨n, path, reached, has, lists⟩ :=
      Root.class_of_mem_explore plain (.place root) around found
    obtain ⟨tree, file, _⟩ := has.file
    obtain ⟨names, filled, each, rfl⟩ :=
      (reaches_package_iff plain nonempty own file).mp ⟨n, reached⟩
    obtain ⟨more, name, rfl⟩ : ∃ more name, names = more ++ [name] :=
      ⟨_, _, (List.dropLast_concat_getLast filled).symm⟩
    have steps : ∀ step ∈ package ++ (more ++ [name]), Path.FileName step :=
      List.forall_mem_append.mpr ⟨fun segment inside => (own segment inside).fileName, each⟩
    rw [← List.append_assoc] at steps has lists
    have below := (Disk.hasClass_joinAll_iff nonempty steps).mp has
    cases lists with
    | file => exact ⟨_, .mk there asked (List.prefix_append _ _) below, rfl⟩

/-- What is selected is returned, or another location of its URI is. -/
theorem exists_of_selected (unfiltered : explorer.filters = [])
    (unlimited : explorer.walk.maxDepth = none) {path : Path}
    (h : Selected disk roots packages path) :
    ∃ all,
      explorer.packages disk ⟨roots⟩ none (packages.map (String.intercalate ".")) = .ok all ∧
      ∃ other ∈ all.locations, other.uri = fileUri path := by
  cases h with
  | @mk root package directories name there asked within below =>
    obtain ⟨more, rfl⟩ := within
    have around := directed root there
    obtain ⟨entries, directory⟩ := Disk.isDirectory_eq_true_iff.mp around
    have nonempty := Disk.isEmpty_of_find directory
    have has := (Disk.hasClass_joinAll_iff nonempty below.named).mpr below
    obtain ⟨bytes, file⟩ := below.file
    have steps := below.named
    rw [List.append_assoc, List.forall_mem_append] at steps
    obtain ⟨n, reached⟩ := (reaches_package_iff plain nonempty (segments package asked) file).mpr
      ⟨more ++ [name], by simp, steps.2, by rw [List.append_assoc]⟩
    have start : disk.isDirectory
        (root.join ⟨packagePrefix (String.intercalate "." package)⟩) = true := by
      cases reached with
      | down listed =>
        obtain ⟨entries, found, _⟩ := Disk.children_eq_ok listed
        rw [Disk.isDirectory, found]
        rfl
    have included : explorer.filters.includes
        (.file root (root.joinAll (package ++ more ++ [name]))) = true := by
      rw [unfiltered]
      rfl
    have few : ∀ limit, explorer.walk.maxDepth = .some limit → n + 1 ≤ limit := by
      intro limit given
      rw [unlimited] at given
      cases given
    have name := List.mem_map_of_mem (f := String.intercalate ".") asked
    exact exists_of_packages plain name there around start reached has included few

end Packages

/-- The search returns the URIs of the selected class files, each of them once. -/
structure ReturnsSelected (disk : Disk) (roots : List Path) (packages : List (List String))
    (all : Enumeration) : Prop where
  once : (all.locations.map Location.uri).Nodup
  exact : ∀ uri, uri ∈ all.locations.map Location.uri ↔
    ∃ path, Selected disk roots packages path ∧ uri = fileUri path

/-- On a disk without links, a search for packages without filters and without a limit returns
exactly what is below the directories of the packages. -/
theorem packages_exact {disk : Disk} (plain : disk.root.Plain) {roots : List Path}
    (filled : roots ≠ []) (directed : ∀ root ∈ roots, disk.isDirectory root = true)
    {packages : List (List String)} (asked : packages ≠ [])
    (segments : ∀ package ∈ packages, ∀ segment ∈ package, IsSegment segment)
    (explorer : Explorer) (unfiltered : explorer.filters = [])
    (unlimited : explorer.walk.maxDepth = none) :
    ∃ all,
      explorer.packages disk ⟨roots⟩ none (packages.map (String.intercalate ".")) = .ok all ∧
      ReturnsSelected disk roots packages all := by
  have named : packages.map (String.intercalate ".") ≠ [] := by simpa using asked
  obtain ⟨all, run⟩ := exists_packages filled directed named explorer
  refine ⟨all, run, ?_, ?_⟩
  · rw [eq_of_run run, locations_ofFindings]
    exact nodup_map_firsts Location.uri _
  · intro uri
    rw [List.mem_map]
    constructor
    · rintro ⟨location, kept, rfl⟩
      exact selected_of_mem plain directed segments run kept
    · rintro ⟨path, selected, rfl⟩
      obtain ⟨other, run', kept⟩ :=
        exists_of_selected plain directed segments unfiltered unlimited selected
      cases (show Except.ok all = _ from run.symm).trans run'
      exact kept

/-! ## A package and its neighbour -/

/-- A disk with the packages `p.q` and `p.qr`. -/
def siblingDisk : Disk where
  root := .directory [("p", .directory [
    ("q", .directory [("A.class", .file [])]),
    ("qr", .directory [("B.class", .file [])])])]
  workingDirectory := ⟨"/"⟩

theorem plain_siblingDisk : siblingDisk.root.Plain := by
  have p : Path.FileName "p" := by decide
  have q : Path.FileName "q" := by decide
  have a : Path.FileName "A.class" := by decide
  have qr : Path.FileName "qr" := by decide
  have b : Path.FileName "B.class" := by decide
  exact ⟨p, ⟨q, ⟨a, trivial, trivial⟩, qr, ⟨b, trivial, trivial⟩, trivial⟩, trivial⟩

theorem find_siblingDisk_q :
    siblingDisk.find ⟨"/p/q"⟩ = .ok (.directory [("A.class", .file [])]) := by
  rw [Disk.find_eq plain_siblingDisk]
  rfl

theorem find_siblingDisk_class : siblingDisk.find ⟨"/p/q/A.class"⟩ = .ok (.file []) := by
  rw [Disk.find_eq plain_siblingDisk]
  rfl

/-- There is one class below `/p/q`. -/
theorem reaches_siblingDisk {n : Nat} {path : Path}
    (h : siblingDisk.Reaches (n + 1) ⟨"/p/q"⟩ path) : path = ⟨"/p/q/A.class"⟩ := by
  have last : Path.join ⟨"/p/q"⟩ ⟨"A.class"⟩ = ⟨"/p/q/A.class"⟩ := by decide
  rcases h.of_single (Disk.children_of_single find_siblingDisk_q) with ⟨zero, _⟩ | ⟨n, _, inner⟩
  · cases zero
  · rw [last] at inner
    cases inner with
    | here => rfl
    | down listed =>
      rw [Disk.children, find_siblingDisk_class] at listed
      cases listed

theorem selected_siblingDisk_iff {path : Path} :
    Selected siblingDisk [⟨"/"⟩, ⟨"/"⟩] [["p", "q"], ["p", "q"]] path ↔
      path = ⟨"/p/q/A.class"⟩ := by
  constructor
  · intro selected
    cases selected with
    | @mk root package directories name there asked within below =>
      obtain ⟨more, rfl⟩ := within
      obtain rfl : root = ⟨"/"⟩ := by simpa using there
      obtain rfl : package = ["p", "q"] := by simpa using asked
      obtain ⟨bytes, file⟩ := below.file
      have steps := below.named
      have whole : Path.joinAll ⟨"/"⟩ (["p", "q"] ++ (more ++ [name])) =
          Path.joinAll ⟨"/p/q"⟩ (more ++ [name]) := rfl
      rw [List.append_assoc, List.forall_mem_append] at steps
      rw [List.append_assoc, whole] at file ⊢
      have reached := Disk.Reaches.joinAll plain_siblingDisk steps.2 rfl file
      rw [List.length_append] at reached
      exact reaches_siblingDisk reached
  · rintro rfl
    have below : siblingDisk.ClassBelow ⟨"/"⟩ ["p", "q"] "A.class" :=
      ⟨by decide, by decide, by decide, [], find_siblingDisk_class⟩
    exact .mk List.mem_cons_self List.mem_cons_self (List.prefix_refl _) below

/-- The package `p.q` has no part in `p.qr`, and what is found twice is returned once. -/
theorem packages_exact_siblingDisk :
    ∃ all, Explorer.packages {} siblingDisk ⟨[⟨"/"⟩, ⟨"/"⟩]⟩ none ["p.q", "p.q"] = .ok all ∧
      all.locations.map Location.uri = ["file:///p/q/A.class"] := by
  have root : siblingDisk.isDirectory ⟨"/"⟩ = true := by
    rw [Disk.isDirectory, Disk.find_eq plain_siblingDisk]
    rfl
  have directed : ∀ root ∈ [Path.mk "/", ⟨"/"⟩], siblingDisk.isDirectory root = true :=
    List.forall_mem_cons.mpr ⟨root, List.forall_mem_singleton.mpr root⟩
  have segments : ∀ package ∈ [["p", "q"], ["p", "q"]], ∀ segment ∈ package, IsSegment segment := by
    decide
  obtain ⟨all, found, once, exact⟩ := packages_exact plain_siblingDisk (List.cons_ne_nil _ _)
    directed (List.cons_ne_nil _ _) segments {} rfl rfl
  have listed : ∀ uri, uri ∈ all.locations.map Location.uri ↔ uri ∈ ["file:///p/q/A.class"] := by
    intro uri
    rw [exact]
    simp only [selected_siblingDisk_iff, exists_eq_left, List.mem_singleton]
    rfl
  have single := (List.perm_ext_iff_of_nodup once (List.nodup_singleton _)).mpr listed
  exact ⟨all, found, List.perm_singleton.mp single⟩

end Search

end ClassAtlas
