import ClassAtlas.Proofs.Disk.Absolute
import ClassAtlas.Proofs.Disk.Following
import ClassAtlas.Proofs.Disk.Spelling
import Mathlib.Data.String.Basic

/-!
# Directories by their components

A directory that is there is there under its components alone, joined one after the other to the
root (`Disk.find_reduced`): what is left out of the text are slashes and dots that ask for nothing.
On the way there is a directory in front of each component (`Disk.exists_directory_of_joinSteps`).
-/

namespace ClassAtlas

namespace Path

/-! ## Texts -/

theorem Component.Stands.fileName {name : String} (h : (Component.name name).Stands) :
    FileName name where
  nonempty := by
    rintro rfl
    cases h.own
  clean := h.clean
  notDot := by
    rintro rfl
    cases h.own
  notDots := by
    rintro rfl
    cases h.own

/-- A part without slashes adds what is written between, or nothing. -/
theorem joinSteps_part_sublist {base : Path} {front part : List Char}
    (nonempty : base.isEmpty = false)
    (same : base.text.toList = front ∨ base.text.toList = front ++ ['/']) (clean : '/' ∉ part) :
    (base.joinSteps (partComponents part)).text.toList.Sublist (front ++ '/' :: part) := by
  have single : partComponents part = (componentOfPart part).toList := by
    rw [partComponents, List.splitOn_eq_singleton clean]
    cases counts : componentOfPart part <;> simp [counts]
  rw [single]
  cases counts : componentOfPart part with
  | none =>
    rcases same with same | same
    · exact same ▸ List.sublist_append_left _ _
    · show base.text.toList.Sublist _
      rw [same]
      exact (List.Sublist.refl front).append ((List.nil_sublist part).cons_cons '/')
  | some step =>
    have written := toList_text_of_part counts
    show (base.join ⟨step.text⟩).text.toList.Sublist _
    rw [join_eq nonempty (stands_of_part clean counts).relative]
    split
    next slash =>
      rw [String.toList_append, written]
      rcases same with same | same
      · exact same ▸ (List.Sublist.refl _).append (List.sublist_cons_self '/' part)
      · rw [same, List.append_assoc]
        exact List.Sublist.refl _
    next plain =>
      have own : base.text.toList = front := same.resolve_right fun ends => plain (by simp [ends])
      have slash : "/".toList = ['/'] := rfl
      rw [String.toList_append, String.toList_append, written, own, slash, List.append_assoc]
      exact List.Sublist.refl _

/-- Joining the components of a text gives no more than the text behind a slash. -/
theorem joinSteps_sublist {base : Path} {front : List Char} (rest : List Char)
    (nonempty : base.isEmpty = false)
    (same : base.text.toList = front ∨ base.text.toList = front ++ ['/']) :
    (base.joinSteps (partComponents rest)).text.toList.Sublist (front ++ '/' :: rest) := by
  by_cases slash : '/' ∈ rest
  · -- The parts up to the first slash and behind it are joined one after the other.
    obtain ⟨part, more, split, clean⟩ := List.eq_append_cons_of_mem slash
    have stand : ∀ step ∈ partComponents part, step.Stands :=
      fun step => stands_of_mem_partComponents
    have first := joinSteps_part_sublist nonempty same clean
    have second := joinSteps_sublist more (isEmpty_joinSteps nonempty stand) (.inl rfl)
    have joined : base.joinSteps (partComponents rest) =
        (base.joinSteps (partComponents part)).joinSteps (partComponents more) := by
      rw [split, partComponents_append_slash]
      exact List.foldl_append
    rw [joined, split, ← List.cons_append, ← List.append_assoc]
    exact second.trans (first.append (List.Sublist.refl _))
  · exact joinSteps_part_sublist nonempty same slash
termination_by rest.length
decreasing_by simp [split]; omega

/-- The absolute path that has only its components. -/
def reduced (path : Path) : Path := joinSteps ⟨"/"⟩ (partComponents path.text.toList)

theorem reduced_sublist {path : Path} (absolute : path.isAbsolute = true) :
    path.reduced.text.toList.Sublist path.text.toList := by
  obtain ⟨rest, text⟩ := List.head?_eq_some_iff.mp (of_decide_eq_true absolute)
  have parts : partComponents path.text.toList = partComponents rest := by
    rw [text]
    exact partComponents_append_slash [] rest
  have root : (Path.text ⟨"/"⟩).toList = [] ++ ['/'] := rfl
  rw [reduced, parts, text]
  exact joinSteps_sublist rest rfl (.inr root)

theorem components_reduced {path : Path} (absolute : path.isAbsolute = true) :
    path.reduced.components = path.components := by
  have stand : ∀ step ∈ partComponents path.text.toList, step.Stands :=
    fun step => stands_of_mem_partComponents
  rw [reduced, components_joinSteps rfl stand, components_of_isAbsolute absolute]
  rfl

end Path

namespace Disk

open ClassAtlas.Path

variable {disk : Disk} {base path : Path} {step : Component} {steps : List Component}
variable {tree : FileTree} {children : List (String × FileTree)}

/-! ## Steps -/

/-- A component moves; it is not in the text for nothing. -/
theorem exists_moveOf (stands : step.Stands) : ∃ move, moveOf step = some move ∧
    plainSteps step.text = [move] := by
  cases step with
  | root => exact absurd rfl stands.ne_root
  | current => exact absurd rfl stands.ne_current
  | parent => exact ⟨.up, rfl, rfl⟩
  | name text => exact ⟨.into text, rfl, plainSteps_name stands.fileName⟩

theorem plainSteps_joinSteps (nonempty : base.isEmpty = false)
    (stand : ∀ step ∈ steps, step.Stands) :
    plainSteps (base.joinSteps steps).text = plainSteps base.text ++ steps.filterMap moveOf := by
  induction steps generalizing base with
  | nil => exact (List.append_nil _).symm
  | cons step steps ih =>
    obtain ⟨first, others⟩ := List.forall_mem_cons.mp stand
    obtain ⟨move, moves, plain⟩ := exists_moveOf first
    show plainSteps ((base.join ⟨step.text⟩).joinSteps steps).text = _
    rw [ih (isEmpty_join nonempty first.relative) others,
      plainSteps_join nonempty first.relative, plain,
      List.filterMap_cons, moves, List.append_assoc, List.singleton_append]

theorem steps_join_step (nonempty : base.isEmpty = false) (stands : step.Stands) :
    Disk.steps (base.join ⟨step.text⟩).text = plainSteps base.text ++ plainSteps step.text := by
  have plain : endsWithSlash (base.join ⟨step.text⟩).text = false := by
    rw [endsWithSlash, getLast?_text_join nonempty stands.relative stands.isEmpty]
    apply decide_eq_false
    intro slash
    exact stands.clean (List.mem_of_getLast? slash)
  rw [Disk.steps, plain, if_neg Bool.false_ne_true, plainSteps_join nonempty stands.relative]

/-! ## Directories -/

/-- In front of a component is a directory. -/
theorem exists_directory_of_join (nonempty : base.isEmpty = false) (stands : step.Stands)
    (h : disk.find (base.join ⟨step.text⟩) = .ok tree) :
    ∃ around, disk.find base = .ok (.directory around) := by
  obtain ⟨move, _, plain⟩ := exists_moveOf stands
  obtain ⟨_, left, last, given, follows, _⟩ := find_eq_ok_iff_follows.mp h
  obtain ⟨given', rfl⟩ := asked_of_asked_join nonempty stands.relative given
  rw [steps_join_step (isEmpty_workingDirectory_join nonempty) stands, plain] at follows
  obtain ⟨fewer, middle, first, second⟩ := follows.exists_of_append
  obtain ⟨around, here⟩ := second.exists_directory
  exact ⟨around, find_of_follows given' first here⟩

theorem exists_directory_of_joinSteps (nonempty : base.isEmpty = false)
    (stand : ∀ step ∈ steps, step.Stands)
    (h : disk.find (base.joinSteps steps) = .ok (.directory children)) :
    ∃ around, disk.find base = .ok (.directory around) := by
  induction steps generalizing base with
  | nil => exact ⟨children, h⟩
  | cons step steps ih =>
    obtain ⟨first, others⟩ := List.forall_mem_cons.mp stand
    obtain ⟨_, there⟩ := ih (isEmpty_join nonempty first.relative) others h
    exact exists_directory_of_join nonempty first there

/-- A directory is there by its components alone. -/
theorem find_reduced (absolute : path.isAbsolute = true)
    (h : disk.find path = .ok (.directory children)) :
    disk.find path.reduced = .ok (.directory children) := by
  obtain ⟨asked, left, last, given, follows, here⟩ := find_eq_ok_iff_follows.mp h
  obtain ⟨clean, _, short, rfl⟩ := asked_eq_ok_iff.mp given
  rw [join_of_isAbsolute absolute] at follows
  have stand : ∀ step ∈ partComponents path.text.toList, step.Stands :=
    fun step => stands_of_mem_partComponents
  have thinner := reduced_sublist absolute
  have absolute' : path.reduced.isAbsolute = true := by
    rw [← root_mem_components, components_reduced absolute, root_mem_components]
    exact absolute
  have given' : disk.asked path.reduced = .ok path.reduced := by
    refine asked_eq_ok_iff.mpr ⟨fun nul => clean (thinner.subset nul), ?_, ?_, ?_⟩
    · exact isEmpty_joinSteps rfl stand
    · have size := String.utf8Len_le_of_sublist thinner
      rw [String.utf8Len_toList, String.utf8Len_toList] at size
      exact Nat.lt_of_le_of_lt size short
    · exact join_of_isAbsolute absolute'
  -- The steps that stay where they are may be left out, and no others are.
  have led := follows.thins (thins_filter _)
  have same : (Disk.steps path.text).filter (· ≠ .stay) = plainSteps path.reduced.text := by
    rw [filter_steps, moves_eq, components_of_isAbsolute absolute, reduced,
      plainSteps_joinSteps rfl stand]
    rfl
  rw [same] at led
  exact find_of_follows given' led here

end Disk

end ClassAtlas
