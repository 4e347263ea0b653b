import ClassAtlas.Proofs.ClassGraph.Firsts
import ClassAtlas.Proofs.Disk.Named

/-!
# The order of paths

Paths are in order component by component, which is the order of names among the children of a
directory (`Path.le_join_name`). So a directory lists its children in path order
(`Disk.pairwise_children`).
-/

namespace ClassAtlas

namespace Path

variable {first second third base : Path}

theorem le_iff : first.le second = true ↔ ¬ second.sortKey < first.sortKey := by
  rw [le, Bool.not_eq_true', decide_eq_false_iff_not]

theorem le_total (first second : Path) : first.le second = true ∨ second.le first = true := by
  rw [le_iff, le_iff, List.not_lt, List.not_lt]
  exact List.le_total _ _

theorem le_trans (h : first.le second = true) (h' : second.le third = true) :
    first.le third = true := by
  rw [le_iff, List.not_lt] at *
  exact List.le_trans h h'

/-- Paths in order by `mergeSort`. -/
theorem pairwise_mergeSort (paths : List Path) :
    (paths.mergeSort Path.le).Pairwise fun first second => first.le second = true := by
  refine List.pairwise_mergeSort ?_ ?_ paths
  · exact fun _ _ _ => le_trans
  · intro first second
    rw [Bool.or_eq_true]
    exact le_total first second

theorem append_lt_append_iff {α : Type} [LT α] [Std.Irrefl fun a b : α => a < b]
    (front : List α) (rest other : List α) : front ++ rest < front ++ other ↔ rest < other := by
  induction front with
  | nil => rfl
  | cons first front ih =>
    rw [List.cons_append, List.cons_append, List.cons_lt_cons_iff, ih]
    constructor
    · rintro (less | ⟨_, less⟩)
      · exact absurd less (Std.Irrefl.irrefl first)
      · exact less
    · exact fun less => .inr ⟨rfl, less⟩

/-- A path that a name is joined to is not empty. -/
theorem isEmpty_join_name {name : String} (named : FileName name) :
    (base.join ⟨name⟩).isEmpty = false := by
  by_cases empty : base.isEmpty = true
  · rw [join_of_isEmpty empty]
    exact named.isEmpty
  · exact isEmpty_join (Bool.eq_false_iff.mpr empty) named.relative

/-- Children of a directory are in path order as their names are in order. -/
theorem le_join_name {name other : String} (nonempty : base.isEmpty = false) (named : FileName name)
    (named' : FileName other) :
    (base.join ⟨name⟩).le (base.join ⟨other⟩) = true ↔ name ≤ other := by
  have keys : (base.join ⟨other⟩).sortKey < (base.join ⟨name⟩).sortKey ↔ other < name := by
    rw [sortKey, sortKey, components_join_name nonempty named, components_join_name nonempty named',
      List.map_append, List.map_append, append_lt_append_iff, List.map_singleton,
      List.map_singleton, List.cons_lt_cons_iff]
    simp only [Component.sortKey, String.lt_iff, String.toList_append, append_lt_append_iff,
      List.not_lt_nil, and_false, or_false]
  rw [le_iff, keys, String.not_lt]

end Path

/-- A directory lists its children in path order. -/
theorem Disk.pairwise_children {disk : Disk} (named : disk.root.Named) {path : Path}
    {children : List Path} (h : disk.children path = .ok children) :
    children.Pairwise fun first second => first.le second = true := by
  obtain ⟨entries, found, rfl⟩ := children_eq_ok_iff.mp h
  have nonempty : path.isEmpty = false := isEmpty_of_find found
  have names : ∀ name ∈ (entries.map Prod.fst).mergeSort fun a b => decide (a ≤ b),
      Path.FileName name := by
    intro name inside
    obtain ⟨entry, there, rfl⟩ := List.mem_map.mp (List.mem_mergeSort.mp inside)
    exact (FileTree.named_of_mem (named_of_find named found) there).1
  have sorted := pairwise_le_mergeSort id (entries.map Prod.fst)
  refine List.pairwise_map.mpr (sorted.imp_of_mem fun {a b} inside inside' le => ?_)
  exact (Path.le_join_name nonempty (names a inside) (names b inside')).mpr le

end ClassAtlas
