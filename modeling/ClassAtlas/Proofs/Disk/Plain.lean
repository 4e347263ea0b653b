import ClassAtlas.Disk

/-!
# Paths without links

Where no link stands on the way, a path leads where its names say.
-/

namespace ClassAtlas

/-- What stands under names one below the other, none of them a link. -/
def FileTree.under? : FileTree → List String → Option FileTree
  | link _, _ => none
  | tree, [] => some tree
  | directory children, name :: names =>
    if name.utf8ByteSize ≤ Disk.maxNameSize then
      (children.lookup name).bind (under? · names)
    else none
  | file _, _ :: _ => none

namespace FileTree

theorem ne_link_of_under? {tree found : FileTree} {names : List String}
    (h : tree.under? names = some found) (target : String) : tree ≠ link target := by
  rintro rfl
  cases names <;> cases h

/-- Under no names stands the tree itself. -/
theorem eq_of_under? {tree found : FileTree} (h : tree.under? [] = some found) : tree = found := by
  cases tree with
  | link => cases h
  | file | directory => exact Option.some.inj h

/-- Under the first name stands a child. -/
theorem exists_of_under? {tree found : FileTree} {name : String} {names : List String}
    (h : tree.under? (name :: names) = some found) :
    ∃ children child, tree = directory children ∧ name.utf8ByteSize ≤ Disk.maxNameSize ∧
      children.lookup name = some child ∧ child.under? names = some found := by
  cases tree with
  | link | file => cases h
  | directory children =>
    rw [under?] at h
    obtain ⟨short, h⟩ := Option.ite_none_right_eq_some.mp h
    obtain ⟨child, there, below⟩ := Option.bind_eq_some_iff.mp h
    exact ⟨children, child, rfl, short, there, below⟩

end FileTree

namespace Disk

theorem follow_under {root tree : FileTree} {names : List String} {trail : Trail}
    (h : (trail.tree root).under? names = some tree) (links : Nat) :
    (follow root true links trail (names.map .into)).map (Trail.tree root) = .ok tree := by
  induction names generalizing trail with
  | nil =>
    rw [List.map_nil, follow]
    exact congrArg Except.ok (FileTree.eq_of_under? h)
  | cons name names ih =>
    obtain ⟨children, child, start, short, there, below⟩ := FileTree.exists_of_under? h
    rw [List.map_cons, follow.eq_def, start]
    simp only [if_neg (Nat.not_lt.mpr short), there]
    cases child with
    | link target => exact absurd rfl (FileTree.ne_link_of_under? below target)
    | file | directory => exact ih below

/-- A path from the root leads where its names say. -/
theorem find_of_under {disk : Disk} {path : Path} (names : List String) {tree : FileTree}
    (asked : disk.asked path = .ok path) (named : steps path.text = names.map .into)
    (h : disk.root.under? names = some tree) : disk.find path = .ok tree := by
  have start : (Trail.tree disk.root []).under? names = some tree := h
  rw [find, locate, asked, ← follow_under start maxLinks, ← named]
  rfl

end Disk

end ClassAtlas
