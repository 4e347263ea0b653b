import ClassAtlas.Proofs.Explore.ModuleInfos
import ClassAtlas.Proofs.Package.Tree
import Mathlib.Data.List.Sort

/-!
# Listings of archives

What is listed of an archive below a directory is asked by the rest of its name, and what is listed
of the whole archive by its whole name. For a package the two agree but for `META-INF`: the listing
of a package in it has classes that the whole listing leaves out (`Archive.LetIn`), and the listing
of another package leaves out what stands in a `META-INF` of its own (`Archive.Lost`).
-/

namespace ClassAtlas

/-! ## Names in a directory -/

namespace IsDirectoryPrefix

variable {directory : String} (h : IsDirectoryPrefix directory)
include h

theorem hasEnding_append {ending : String} (clean : '/' ∉ ending.toList) {rest : List Char}
    {entry : String} (written : entry.toList = directory.toList ++ rest) :
    hasEnding ending entry = hasEnding ending (String.ofList rest) := by
  rcases h with rfl | ⟨front, slash⟩
  · rw [← String.ofList_toList (s := entry), written]
    rfl
  · rw [slash, List.append_assoc, List.singleton_append] at written
    exact hasEnding_append_slash clean written

/-- A name in a directory is in `META-INF` if the directory is. -/
theorem metaInf_prefix_iff (nonempty : directory ≠ "") {name : String}
    (below : directory.toList <+: name.toList) :
    metaInf.toList <+: name.toList ↔ metaInf.toList <+: directory.toList := by
  -- The one slash of the mark is at its end, so no shorter part of it is a directory.
  have single : ∀ k < metaInf.toList.length,
      (metaInf.toList.take k).getLast? ≠ .some '/' := by decide
  constructor
  · intro inside
    rcases List.prefix_or_prefix_of_prefix inside below with around | short
    · exact around
    · obtain ⟨front, slash⟩ := h.resolve_left nonempty
      have cut := List.prefix_iff_eq_take.mp short
      rcases Nat.lt_or_ge directory.toList.length metaInf.toList.length with less | enough
      · have last := single _ less
        rw [← cut, slash, List.getLast?_concat] at last
        exact absurd rfl last
      · have same := short.eq_of_length_le enough
        exact ⟨[], by rw [List.append_nil, same]⟩
  · exact fun around => around.trans below

end IsDirectoryPrefix

namespace Archive

variable {archive : Archive} {directory name : String}

/-- The archive has an entry of that name, which is the name of a class file. -/
def HoldsClass (archive : Archive) (name : String) : Prop :=
  (∃ entry ∈ archive.entries, entry.name = name) ∧ hasEnding classFileEnding name = true ∧
    ¬ NamesDescriptor name

/-- A class in a directory that is itself in `META-INF`, so that the whole listing lacks it. -/
structure LetIn (archive : Archive) (directory name : String) : Prop where
  holds : archive.HoldsClass name
  below : directory.toList <+: name.toList
  hidden : metaInf.toList <+: directory.toList
  kept : ¬ (directory ++ metaInf).toList <+: name.toList

/-- A class in a `META-INF` of a directory, which the whole listing has. -/
structure Lost (archive : Archive) (directory name : String) : Prop where
  holds : archive.HoldsClass name
  nonempty : directory ≠ ""
  shown : ¬ metaInf.toList <+: directory.toList
  below : (directory ++ metaInf).toList <+: name.toList

theorem pairwise_classEntries (archive : Archive) (directory : String) :
    (archive.classEntries directory).Pairwise (· < ·) :=
  pairwise_foldl_insertAscending _ .nil

/-- A class below a directory is listed there unless it is in the `META-INF` of the directory. -/
theorem mem_classEntries_iff (h : IsDirectoryPrefix directory) :
    name ∈ archive.classEntries directory ↔ archive.HoldsClass name ∧
      directory.toList <+: name.toList ∧ ¬ (directory ++ metaInf).toList <+: name.toList := by
  have told : ∀ rest, directory.toList ++ rest = name.toList →
      (isImportableEntry (String.ofList rest) = true ↔ hasEnding classFileEnding name = true ∧
        ¬ NamesDescriptor name ∧ ¬ (directory ++ metaInf).toList <+: name.toList) := by
    intro rest whole
    rw [isImportableEntry_iff, h.hasEnding_append (by decide) whole.symm,
      h.namesDescriptor_append whole.symm, ← whole, String.toList_append,
      List.prefix_append_right_inj, String.toList_ofList]
  rw [Root.mem_classEntries]
  constructor
  · rintro ⟨there, rest, whole, importable⟩
    obtain ⟨ending, plain, outside⟩ := (told rest whole).mp importable
    exact ⟨⟨there, ending, plain⟩, ⟨rest, whole⟩, outside⟩
  · rintro ⟨⟨there, ending, plain⟩, ⟨rest, whole⟩, outside⟩
    exact ⟨there, rest, whole, (told rest whole).mpr ⟨ending, plain, outside⟩⟩

theorem mem_filter_classEntries_iff :
    name ∈ (archive.classEntries "").filter (·.startsWith directory) ↔ archive.HoldsClass name ∧
      directory.toList <+: name.toList ∧ ¬ metaInf.toList <+: name.toList := by
  rw [List.mem_filter, mem_classEntries_iff (.inl rfl), String.startsWith_string_iff,
    String.empty_append]
  constructor
  · rintro ⟨⟨holds, -, outside⟩, below⟩
    exact ⟨holds, below, outside⟩
  · rintro ⟨holds, below, outside⟩
    exact ⟨⟨holds, List.nil_prefix, outside⟩, below⟩

section
variable (h : IsDirectoryPrefix directory)
include h

theorem letIn_iff :
    archive.LetIn directory name ↔ name ∈ archive.classEntries directory ∧
      name ∉ (archive.classEntries "").filter (·.startsWith directory) := by
  rw [mem_classEntries_iff h, mem_filter_classEntries_iff]
  constructor
  · rintro ⟨holds, below, hidden, kept⟩
    exact ⟨⟨holds, below, kept⟩, fun shown => shown.2.2 (hidden.trans below)⟩
  · rintro ⟨⟨holds, below, kept⟩, without⟩
    have hidden : metaInf.toList <+: name.toList := by
      by_contra outside
      exact without ⟨holds, below, outside⟩
    have nonempty : directory ≠ "" := by
      rintro rfl
      exact kept hidden
    exact ⟨holds, below, (h.metaInf_prefix_iff nonempty below).mp hidden, kept⟩

theorem lost_iff :
    archive.Lost directory name ↔
      name ∈ (archive.classEntries "").filter (·.startsWith directory) ∧
        name ∉ archive.classEntries directory := by
  rw [mem_classEntries_iff h, mem_filter_classEntries_iff]
  constructor
  · rintro ⟨holds, nonempty, shown, inner⟩
    have below : directory.toList <+: name.toList := by
      rw [String.toList_append] at inner
      exact (List.prefix_append _ _).trans inner
    refine ⟨⟨holds, below, fun hidden => ?_⟩, fun kept => kept.2.2 inner⟩
    exact shown ((h.metaInf_prefix_iff nonempty below).mp hidden)
  · rintro ⟨⟨holds, below, shown⟩, without⟩
    have inner : (directory ++ metaInf).toList <+: name.toList := by
      by_contra kept
      exact without ⟨holds, below, kept⟩
    have nonempty : directory ≠ "" := by
      rintro rfl
      exact shown inner
    exact ⟨holds, nonempty, fun hidden => shown (hidden.trans below), inner⟩

end

/-- How the listing of a package differs from the part of the whole listing that is below it. Both
are in ascending order, so they are equal if no class is let in and none is lost. -/
theorem classEntries_packagePrefix (archive : Archive) (package : String) :
    let directory := packagePrefix package
    let listed := archive.classEntries directory
    let part := (archive.classEntries "").filter (·.startsWith directory)
    listed.Pairwise (· < ·) ∧ part.Pairwise (· < ·) ∧
      (∀ name, name ∈ listed ∧ name ∉ part ↔ archive.LetIn directory name) ∧
      (∀ name, name ∈ part ∧ name ∉ listed ↔ archive.Lost directory name) ∧
      (listed = part ↔
        ∀ name, ¬ archive.LetIn directory name ∧ ¬ archive.Lost directory name) := by
  intro directory listed part
  have h : IsDirectoryPrefix directory := isDirectoryPrefix_packagePrefix package
  have ascending : listed.Pairwise (· < ·) := pairwise_classEntries archive directory
  have ascending' : part.Pairwise (· < ·) := (pairwise_classEntries archive "").filter _
  have letIn : ∀ name, name ∈ listed ∧ name ∉ part ↔ archive.LetIn directory name :=
    fun name => (letIn_iff h).symm
  have lost : ∀ name, name ∈ part ∧ name ∉ listed ↔ archive.Lost directory name :=
    fun name => (lost_iff h).symm
  refine ⟨ascending, ascending', letIn, lost, ?_⟩
  constructor
  · intro same name
    rw [← letIn, ← lost, same]
    exact ⟨fun only => only.2 only.1, fun only => only.2 only.1⟩
  · intro never
    refine ascending.eq_of_mem_iff ascending' fun name => ⟨fun inside => ?_, fun inside => ?_⟩
    · by_contra without
      exact (never name).1 ((letIn name).mp ⟨inside, without⟩)
    · by_contra without
      exact (never name).2 ((lost name).mp ⟨inside, without⟩)

example :
    let named := fun name : String => { (default : ArchiveEntry) with name }
    let archive : Archive := { (default : Archive) with
      entries := ["META-INF/versions/9/p/A.class", "p/META-INF/B.class"].map named }
    archive.classEntries "" = ["p/META-INF/B.class"] ∧
      archive.classEntries (packagePrefix "META-INF") = ["META-INF/versions/9/p/A.class"] ∧
      archive.classEntries (packagePrefix "p") = [] := by decide +kernel

end Archive

end ClassAtlas
