import ClassAtlas.Proofs.ClassGraph.Firsts
import ClassAtlas.Proofs.Disk.Absolute
import ClassAtlas.Proofs.Disk.Plain
import ClassAtlas.Proofs.Explore.Roots
import ClassAtlas.Proofs.Glob.Search

/-!
# Roots of class paths

A class path is put together in three stages: entries are made absolute, those that end in `*` are
replaced by jars, and repetitions are dropped. No root ends in `*` itself (`NoWildcards.expand`), so
that the roots as entries go through every stage as they are (`gathered_ofEntries`).
-/

namespace ClassAtlas

namespace Path

variable {path parent : Path}

theorem isAbsolute_of_head_components (h : path.components.head? = some .root) :
    path.isAbsolute = true := by
  rw [← Bool.not_eq_false]
  intro relative
  have steps : ∀ step ∈ path.components.head?, step ≠ .root := by
    rw [components_eq, lead, relative, if_neg Bool.false_ne_true]
    split
    · rintro step ⟨⟩
      exact Component.noConfusion
    · intro step first
      exact (stands_of_mem_partComponents (List.mem_of_mem_head? first)).ne_root
  exact steps .root h rfl

/-- A name at the end of an absolute path stands in an absolute directory. -/
theorem exists_parent_of_fileName {name : String} (absolute : path.isAbsolute = true)
    (named : path.fileName? = some name) :
    ∃ parent, path.parent? = some parent ∧ parent.isAbsolute = true := by
  obtain ⟨parent, given, whole⟩ := exists_parent named
  refine ⟨parent, given, isAbsolute_of_head_components ?_⟩
  rw [components_of_isAbsolute absolute] at whole
  cases front : parent.components with
  | nil =>
    rw [front] at whole
    cases whole
  | cons first rest =>
    rw [front] at whole
    obtain ⟨rfl, _⟩ := List.cons.inj whole
    rfl

theorem fileName_eq_of_components {other : Path} (h : path.components = other.components) :
    path.fileName? = other.fileName? := by
  rw [fileName?, h, fileName?]

end Path

namespace Classpath

/-! ## Names of jars -/

/-- The pattern that the names of jars are compared with. -/
def jarNames : Glob.Pattern :=
  ⟨[.anyText, .literal '.', .within [.single 'j', .single 'J'], .within [.single 'a', .single 'A'],
    .within [.single 'r', .single 'R']]⟩

theorem compile_jarPattern : Glob.Pattern.compile jarPattern.text = .ok jarNames := rfl

theorem wild_jarNames : jarNames.Wild := ⟨by decide, by decide, by decide⟩

theorem partsOf_jarPattern : Path.partsOf jarPattern.text = [jarPattern.text.toList] := by decide

/-- The wildcard is not the name of a jar. -/
theorem jarNames_wildcard : jarNames.accepts wildcard = false := by decide

/-! ## The three stages -/

variable {disk : Disk} {entry : Path} {entries : List Path}

/-- None of the paths ends in `*`. -/
def NoWildcards (paths : List Path) : Prop := ∀ path ∈ paths, path.fileName? ≠ some wildcard

/-- An entry that ends in `*` stands for what its pattern finds, in order. -/
theorem expand_of_glob {pattern : Path} {jars : List Path} (wild : entry.fileName? = some wildcard)
    (own : (entry.parent?.getD ⟨"."⟩).join jarPattern = pattern)
    (globbed : disk.glob pattern.text = .ok jars) :
    expand disk entry = jars.mergeSort Path.le := by
  rw [expand, if_pos wild, own, globbed]

/-- An entry that ends in `*` stands for what is found by its parent, read as a pattern, and the
names of jars. -/
theorem exists_mem_expand_iff (disk : Disk) (absolute : entry.isAbsolute = true)
    (wild : entry.fileName? = some wildcard) :
    ∃ parent, entry.parent? = some parent ∧ parent.isAbsolute = true ∧
      ∀ path, path ∈ expand disk entry ↔ ∃ whole patterns,
        Glob.Pattern.compile (parent.join jarPattern).text = .ok whole ∧
        (Path.partsOf parent.text).mapM (fun part => Glob.Pattern.compile (String.ofList part)) =
          .ok patterns ∧
        path ∈ Glob.search disk (disk.searchBound (parent.join jarPattern).text)
          (patterns ++ [jarNames]) ⟨"/"⟩ := by
  obtain ⟨parent, given, above⟩ := Path.exists_parent_of_fileName absolute wild
  have searched : ∀ paths, disk.glob (parent.join jarPattern).text = .ok paths ↔ _ := fun _ =>
    Disk.glob_join_eq_ok_iff (Path.isEmpty_of_isAbsolute above) rfl partsOf_jarPattern
      compile_jarPattern
  refine ⟨parent, given, above, fun path => ?_⟩
  rw [expand, if_pos wild, given, Option.getD_some]
  cases listed : disk.glob (parent.join jarPattern).text with
  | ok jars =>
    obtain ⟨whole, patterns, compiled, parts, rfl⟩ := (searched jars).mp listed
    constructor
    · intro inside
      exact ⟨whole, patterns, compiled, parts, List.mem_mergeSort.mp inside⟩
    · rintro ⟨_, _, _, parts', inside⟩
      obtain rfl := Except.ok.inj (parts.symm.trans parts')
      exact List.mem_mergeSort.mpr inside
  | error fault =>
    constructor
    · exact fun inside => absurd inside List.not_mem_nil
    · rintro ⟨whole, patterns, compiled, parts, _⟩
      have found := (searched _).mpr ⟨whole, patterns, compiled, parts, rfl⟩
      rw [listed] at found
      cases found

/-- All that it stands for is called like a jar. -/
theorem allNamed_expand (disk : Disk) (absolute : entry.isAbsolute = true)
    (wild : entry.fileName? = some wildcard) : Glob.AllNamed jarNames (expand disk entry) := by
  obtain ⟨parent, _, _, searched⟩ := exists_mem_expand_iff disk absolute wild
  intro path inside
  obtain ⟨_, patterns, _, _, found⟩ := (searched path).mp inside
  exact Glob.allNamed_search wild_jarNames disk _ patterns _ path found

/-- No root that an entry stands for stands for others. -/
theorem NoWildcards.expand (disk : Disk) (absolute : entry.isAbsolute = true) :
    NoWildcards (expand disk entry) := by
  by_cases wild : entry.fileName? = some wildcard
  · intro path inside called
    obtain ⟨name, named, accepted⟩ := allNamed_expand disk absolute wild path inside
    obtain rfl := Option.some.inj (named.symm.trans called)
    rw [jarNames_wildcard] at accepted
    cases accepted
  · rw [Classpath.expand, if_neg wild]
    exact List.forall_mem_singleton.mpr wild

theorem noWildcards_roots (rooted : disk.workingDirectory.isAbsolute = true) :
    NoWildcards (ofEntries disk entries).roots := by
  intro root inside
  obtain ⟨entry, absolute, found⟩ := exists_of_mem_roots rooted inside
  exact NoWildcards.expand disk absolute root found

/-- Absolute entries without `*` stand for themselves. -/
theorem expanded_of_noWildcards (absolute : AllAbsolute entries) (plain : NoWildcards entries) :
    expanded disk entries = entries.map (Path.absolute disk.workingDirectory) := by
  have kept : entries.filter (!·.isEmpty) = entries := by
    refine List.filter_eq_self.mpr fun entry inside => ?_
    rw [Path.isEmpty_of_isAbsolute (absolute entry inside), Bool.not_false]
  have own : ∀ entry ∈ entries, expand disk (Path.absolute disk.workingDirectory entry) =
      [Path.absolute disk.workingDirectory entry] := by
    intro entry inside
    have same := Path.components_absolute disk.workingDirectory (absolute entry inside)
    rw [expand, Path.fileName_eq_of_components same, if_neg (plain entry inside)]
  rw [expanded, kept, List.flatMap_map, List.flatMap_congr own, List.map_eq_flatMap]

/-- How a class path comes from entries. -/
structure Gathered (disk : Disk) (entries : List Path) (classpath : Classpath) : Prop where
  absolute : AllAbsolute classpath.roots
  /-- No root is there twice, however it is written. -/
  distinct : (classpath.roots.map Path.components).Nodup
  /-- In the order of the entries, the first of those that are one path. -/
  ordered : classpath.roots = firsts Path.components (expanded disk entries)
  /-- The class path of the roots is the class path. -/
  settled : (ofEntries disk classpath.roots).roots.map Path.components =
    classpath.roots.map Path.components

theorem gathered_ofEntries (rooted : disk.workingDirectory.isAbsolute = true)
    (entries : List Path) : Gathered disk entries (ofEntries disk entries) := by
  have absolute := absolute_ofEntries rooted entries
  have distinct : ((ofEntries disk entries).roots.map Path.components).Nodup := by
    rw [roots_ofEntries]
    exact nodup_map_firsts _ _
  have kept : ((ofEntries disk entries).roots.map (Path.absolute disk.workingDirectory)).map
      Path.components = (ofEntries disk entries).roots.map Path.components := by
    rw [List.map_map]
    refine List.map_congr_left fun root inside => ?_
    exact Path.components_absolute _ (absolute root inside)
  refine ⟨absolute, distinct, roots_ofEntries disk entries, ?_⟩
  rw [roots_ofEntries, expanded_of_noWildcards absolute (noWildcards_roots rooted),
    firsts_eq_self _ (kept ▸ distinct), kept]

/-- A disk with two jars. -/
def jarsDisk : Disk where
  root := .directory [("lib", .directory [("a.jar", .file []), ("b.jar", .file [])])]
  workingDirectory := ⟨"/lib"⟩

/-- Nothing, a wildcard, and files of which one is named in two ways and found by the wildcard. -/
def repeatedEntries : List Path := [⟨"b.jar"⟩, ⟨""⟩, ⟨"*"⟩, ⟨"/lib/.//a.jar/"⟩, ⟨"./c"⟩]

theorem plain_jarsDisk : jarsDisk.root.Plain := by
  simp only [jarsDisk, FileTree.Plain, FileTree.PlainAll, and_true]
  decide

theorem children_jarsDisk : jarsDisk.children ⟨"/lib"⟩ = .ok [⟨"/lib/a.jar"⟩, ⟨"/lib/b.jar"⟩] := by
  have found : jarsDisk.find ⟨"/lib"⟩ =
      .ok (.directory [("a.jar", .file []), ("b.jar", .file [])]) := by
    rw [Disk.find_eq plain_jarsDisk]
    rfl
  rw [Disk.children, found]
  show Except.ok ((["a.jar", "b.jar"].mergeSort _).map _) = _
  rw [List.mergeSort_of_pairwise (by decide)]
  rfl

/-- The wildcard stands for both jars. -/
theorem expand_jarsDisk :
    expand jarsDisk ⟨"/lib/*"⟩ = [⟨"/lib/a.jar"⟩, ⟨"/lib/b.jar"⟩] := by
  have leads : Glob.Leads jarsDisk ⟨"/"⟩ "lib" := by
    refine (if_neg (by decide)).mpr (.inl ?_)
    show (jarsDisk.find ⟨"/lib"⟩).isOk = true
    rw [Disk.find_eq plain_jarsDisk]
    rfl
  have globbed : jarsDisk.glob "/lib/*.[jJ][aA][rR]" = .ok (Glob.search jarsDisk
      (jarsDisk.searchBound "/lib/*.[jJ][aA][rR]")
      [⟨[.literal 'l', .literal 'i', .literal 'b']⟩, jarNames] ⟨"/"⟩) := rfl
  obtain ⟨levels, bound⟩ := jarsDisk.exists_searchBound "/lib/*.[jJ][aA][rR]"
  have joined : Path.join ⟨"/"⟩ ⟨"lib"⟩ = ⟨"/lib"⟩ := by decide
  rw [bound, Glob.search_of_plain rfl leads, joined,
    Glob.search_wild wild_jarNames children_jarsDisk] at globbed
  rw [expand_of_glob (by decide) (by decide) globbed]
  exact List.mergeSort_of_pairwise (by decide)

theorem gathered_repeatedEntries : jarsDisk.workingDirectory.isAbsolute = true ∧
    Gathered jarsDisk repeatedEntries (ofEntries jarsDisk repeatedEntries) ∧
    (ofEntries jarsDisk repeatedEntries).roots =
      [⟨"/lib/b.jar"⟩, ⟨"/lib/a.jar"⟩, ⟨"/lib/c"⟩] := by
  have stages : expanded jarsDisk repeatedEntries =
      ⟨"/lib/b.jar"⟩ :: (expand jarsDisk ⟨"/lib/*"⟩ ++ [⟨"/lib/a.jar/"⟩, ⟨"/lib/c"⟩]) := by
    have absolute : (repeatedEntries.filter (!·.isEmpty)).map
        (Path.absolute jarsDisk.workingDirectory) =
          [⟨"/lib/b.jar"⟩, ⟨"/lib/*"⟩, ⟨"/lib/a.jar/"⟩, ⟨"/lib/c"⟩] := by decide +kernel
    rw [expanded, absolute]
    rfl
  refine ⟨by decide, gathered_ofEntries (by decide) repeatedEntries, ?_⟩
  rw [roots_ofEntries, stages, expand_jarsDisk]
  decide +kernel

end Classpath

end ClassAtlas
