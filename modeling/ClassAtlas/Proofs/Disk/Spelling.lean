import ClassAtlas.Proofs.Disk.Following
import Mathlib.Data.List.Basic

/-!
# Spellings of one path

Paths with the same components take the same steps but for those that stay where they are. Such a
step can only make following fail, so of two spellings of one path that both lead somewhere each
leads to where the other does.
-/

namespace ClassAtlas

namespace Disk

/-! ## Steps that stay -/

/-- The second list is the first without some of the steps that stay. -/
inductive Thins : List Step → List Step → Prop where
  | nil : Thins [] []
  | keep (step : Step) {steps rest : List Step} (h : Thins steps rest) :
    Thins (step :: steps) (step :: rest)
  | drop {steps rest : List Step} (h : Thins steps rest) : Thins (.stay :: steps) rest

theorem Thins.append_left (front : List Step) {steps rest : List Step} (h : Thins steps rest) :
    Thins (front ++ steps) (front ++ rest) := by
  induction front with
  | nil => exact h
  | cons step front ih => exact .keep step ih

theorem thins_filter (steps : List Step) : Thins steps (steps.filter (· ≠ .stay)) := by
  induction steps with
  | nil => exact .nil
  | cons step steps ih =>
    by_cases stays : step = .stay
    · subst stays
      rw [List.filter_cons_of_neg (by simp)]
      exact .drop ih
    · rw [List.filter_cons_of_pos (by simpa using stays)]
      exact .keep step ih

/-- Steps that stay lead nowhere else: without some of them one gets to the same place. -/
theorem Follows.thins {root : FileTree} {links left : Nat} {trail last : Trail}
    {steps rest : List Step} (h : Follows root links trail steps left last)
    (thins : Thins steps rest) : Follows root links trail rest left last := by
  induction h generalizing rest with
  | done =>
    cases thins
    exact .done _ _
  | stay here _ ih =>
    cases thins with
    | keep _ thins => exact .stay here (ih thins)
    | drop thins => exact ih thins
  | up here _ ih =>
    cases thins with
    | keep _ thins => exact .up here (ih thins)
  | into here short there own _ ih =>
    cases thins with
    | keep _ thins => exact .into here short there own (ih thins)
  | link here short there nonempty _ ih =>
    -- The steps of the target are put in front, and stay as they are.
    cases thins with
    | keep _ thins => exact .link here short there nonempty (ih (thins.append_left _))

/-! ## Moves -/

/-- The step that a part between slashes asks for, unless it stays. -/
def moveOfPart : List Char → Option Step
  | [] | ['.'] => none
  | ['.', '.'] => some .up
  | part => some (.into (String.ofList part))

theorem moveOfPart_name {part : List Char} (nonempty : part ≠ []) (notDot : part ≠ ['.'])
    (notDots : part ≠ ['.', '.']) : moveOfPart part = .some (.into (String.ofList part)) := by
  unfold moveOfPart
  split <;> simp_all

/-- The steps of a text that do not stay. -/
def moves (text : List Char) : List Step := (text.splitOn '/').filterMap moveOfPart

theorem filter_plainSteps (parts : List (List Char)) :
    (((parts.filter (· ≠ [])).map fun part =>
      if part = ['.'] then Step.stay else if part = ['.', '.'] then .up
      else .into (String.ofList part)).filter (· ≠ .stay)) = parts.filterMap moveOfPart := by
  induction parts with
  | nil => rfl
  | cons part parts ih =>
    rw [List.filterMap_cons, ← ih]
    by_cases empty : part = []
    · subst empty
      rfl
    by_cases dot : part = ['.']
    · subst dot
      rfl
    by_cases dots : part = ['.', '.']
    · subst dots
      rfl
    rw [moveOfPart_name empty dot dots]
    simp [empty, dot, dots]

theorem filter_steps (text : String) :
    (steps text).filter (· ≠ .stay) = moves text.toList := by
  have plain : (plainSteps text).filter (· ≠ .stay) = moves text.toList := filter_plainSteps _
  rw [steps]
  split
  · rw [List.filter_append, plain]
    exact List.append_nil _
  · exact plain

theorem moves_append_slash (front rest : List Char) :
    moves (front ++ '/' :: rest) = moves front ++ moves rest := by
  rw [moves, List.splitOn_append_cons_self, List.filterMap_append]
  rfl

theorem moves_nil : moves [] = [] := rfl

/-- A slash between two texts does not count, however it comes there. -/
theorem moves_join (base rest : Path) (relative : rest.isAbsolute = false) :
    moves (base.join rest).text.toList = moves base.text.toList ++ moves rest.text.toList := by
  by_cases empty : base.isEmpty = true
  · have nothing : base.text = "" := String.isEmpty_iff.mp empty
    rw [Path.join_of_isEmpty empty, nothing]
    rfl
  · obtain ⟨front, written, same⟩ := Path.text_join (Bool.eq_false_iff.mpr empty) relative
    rw [written, moves_append_slash]
    rcases same with same | same
    · rw [same]
    · rw [same, moves_append_slash, moves_nil, List.append_nil]

/-- The step that a component asks for, unless it stays. -/
def moveOf : Path.Component → Option Step
  | .root | .current => none
  | .parent => some .up
  | .name text => some (.into text)

theorem componentOfPart_bind (part : List Char) :
    (Path.componentOfPart part).bind moveOf = moveOfPart part := by
  unfold Path.componentOfPart
  split
  · rfl
  · rfl
  · rfl
  next nonempty notDot notDots => exact (moveOfPart_name nonempty notDot notDots).symm

theorem filterMap_components (parts : List (List Char)) :
    (parts.filterMap Path.componentOfPart).filterMap moveOf = parts.filterMap moveOfPart := by
  rw [List.filterMap_filterMap]
  exact List.filterMap_congr fun part _ => componentOfPart_bind part

/-- The moves of a path are told by its components. -/
theorem moves_eq (path : Path) : moves path.text.toList = path.components.filterMap moveOf := by
  rw [moves, Path.components]
  split
  next => exact (filterMap_components _).symm
  next parts written =>
    rw [written]
    exact (filterMap_components _).symm
  next => exact (filterMap_components _).symm

theorem root_mem_components (path : Path) :
    Path.Component.root ∈ path.components ↔ path.isAbsolute = true := by
  have never : ∀ part, Path.componentOfPart part ≠ some .root := by
    intro part told
    unfold Path.componentOfPart at told
    split at told <;> simp at told
  rw [Path.components]
  split <;> simp_all

/-- Where a path is asked for, and by which moves. -/
theorem moves_asked {disk : Disk} {path asked : Path} (h : disk.asked path = .ok asked) :
    moves asked.text.toList =
      (if path.isAbsolute then [] else moves disk.workingDirectory.text.toList) ++
        path.components.filterMap moveOf := by
  obtain ⟨_, _, _, rfl⟩ := asked_eq_ok_iff.mp h
  rw [← moves_eq]
  cases absolute : path.isAbsolute with
  | true =>
    rw [Path.join_of_isAbsolute absolute, if_pos rfl, List.nil_append]
  | false =>
    rw [moves_join _ _ absolute, if_neg Bool.false_ne_true]

/-- Two spellings of one path that both lead somewhere lead to the same place. -/
theorem find_same {disk : Disk} {first second : Path} {one other : FileTree}
    (same : first.same second = true) (ho : disk.find first = .ok one)
    (ht : disk.find second = .ok other) : one = other := by
  have components : first.components = second.components := of_decide_eq_true same
  have thinned : ∀ {path : Path} {tree : FileTree}, disk.find path = .ok tree →
      ∃ asked last, disk.asked path = .ok asked ∧ tree = Trail.tree disk.root last ∧
        follow disk.root true maxLinks [] (moves asked.text.toList) = .ok last := by
    intro path tree found
    obtain ⟨asked, left, last, given, follows, rfl⟩ := find_eq_ok_iff_follows.mp found
    refine ⟨asked, last, given, rfl, ?_⟩
    rw [← filter_steps]
    exact follow_of_follows (follows.thins (thins_filter _))
  obtain ⟨askedOne, lastOne, ha, rfl, ledOne⟩ := thinned ho
  obtain ⟨askedOther, lastOther, hb, rfl, ledOther⟩ := thinned ht
  have absolute : first.isAbsolute = second.isAbsolute := by
    rw [Bool.eq_iff_iff, ← root_mem_components, ← root_mem_components, components]
  rw [moves_asked ha, absolute, components, ← moves_asked hb, ledOther] at ledOne
  rw [Except.ok.inj ledOne]

end Disk

end ClassAtlas
