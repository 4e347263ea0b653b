import ClassAtlas.Proofs.Explore.Below
import ClassAtlas.Proofs.Disk.Joined

/-!
# Absolute paths

An absolute path is the root and what its parts stand for. Joining these one after the other gives
them back as components (`components_joinSteps`), so that making an absolute path absolute once more
does not change its components (`components_absolute`).
-/

namespace ClassAtlas.Path

/-! ## Steps between slashes -/

/-- The component is what its own text stands for between slashes. -/
structure Component.Stands (step : Component) : Prop where
  clean : '/' ∉ step.text.toList
  own : componentOfPart step.text.toList = some step

namespace Component.Stands

variable {step : Component}

theorem parts (h : step.Stands) : partComponents step.text.toList = [step] := by
  rw [partComponents, List.splitOn_eq_singleton h.clean, List.filterMap_cons, h.own]
  rfl

theorem relative (h : step.Stands) : Path.isAbsolute ⟨step.text⟩ = false := by
  apply decide_eq_false
  intro slash
  exact h.clean (List.mem_of_mem_head? slash)

theorem isEmpty (h : step.Stands) : Path.isEmpty ⟨step.text⟩ = false := by
  rw [Bool.eq_false_iff]
  intro empty
  have own := h.own
  rw [String.toList_eq_nil_iff.mpr (String.isEmpty_iff.mp empty)] at own
  cases own

theorem ne_root (h : step.Stands) : step ≠ .root := by
  rintro rfl
  exact h.clean (by decide)

theorem ne_current (h : step.Stands) : step ≠ .current := by
  rintro rfl
  cases h.own

end Component.Stands

theorem FileName.stands {name : String} (h : FileName name) : (Component.name name).Stands :=
  ⟨h.clean, h.component⟩

/-- A component is written as the part that it stands for. -/
theorem toList_text_of_part {part : List Char} {step : Component}
    (h : componentOfPart part = some step) : step.text.toList = part := by
  unfold componentOfPart at h
  split at h
  · cases h
  · cases h
  · cases h
    rfl
  · cases h
    exact String.toList_ofList

theorem stands_of_part {part : List Char} {step : Component} (clean : '/' ∉ part)
    (h : componentOfPart part = some step) : step.Stands := by
  have text := toList_text_of_part h
  exact ⟨text ▸ clean, text ▸ h⟩

theorem stands_of_mem_partComponents {text : List Char} {step : Component}
    (h : step ∈ partComponents text) : step.Stands := by
  obtain ⟨part, there, counts⟩ := List.mem_filterMap.mp h
  exact stands_of_part (not_mem_of_mem_splitOn there) counts

theorem components_of_isAbsolute {path : Path} (absolute : path.isAbsolute = true) :
    path.components = .root :: partComponents path.text.toList := by
  rw [components_eq, lead, if_pos absolute, List.singleton_append]

/-! ## Steps joined -/

/-- The path with steps joined one after the other. -/
def joinSteps (base : Path) (steps : List Component) : Path :=
  steps.foldl (fun path step => path.join ⟨step.text⟩) base

section JoinSteps

variable {base : Path} {steps : List Component}

theorem isEmpty_joinSteps (nonempty : base.isEmpty = false) (stand : ∀ step ∈ steps, step.Stands) :
    (base.joinSteps steps).isEmpty = false := by
  induction steps generalizing base with
  | nil => exact nonempty
  | cons step steps ih =>
    obtain ⟨first, others⟩ := List.forall_mem_cons.mp stand
    exact ih (isEmpty_join nonempty first.relative) others

theorem components_joinSteps (nonempty : base.isEmpty = false)
    (stand : ∀ step ∈ steps, step.Stands) :
    (base.joinSteps steps).components = base.components ++ steps := by
  induction steps generalizing base with
  | nil => exact (List.append_nil _).symm
  | cons step steps ih =>
    obtain ⟨first, others⟩ := List.forall_mem_cons.mp stand
    show ((base.join ⟨step.text⟩).joinSteps steps).components = _
    rw [ih (isEmpty_join nonempty first.relative) others, components_join nonempty first.relative,
      first.parts, List.append_assoc, List.singleton_append]

theorem joinSteps_append_singleton (base : Path) (steps : List Component) (step : Component) :
    base.joinSteps (steps ++ [step]) = (base.joinSteps steps).join ⟨step.text⟩ :=
  List.foldl_append

theorem partsOf_step {step : Component} (stands : step.Stands) :
    partsOf step.text = [step.text.toList] := by
  have nonempty : step.text.toList ≠ [] := by
    intro empty
    have own := stands.own
    rw [empty] at own
    cases own
  rw [partsOf, List.splitOn_eq_singleton stands.clean]
  simpa using nonempty

theorem partsOf_joinSteps (nonempty : base.isEmpty = false) (stand : ∀ step ∈ steps, step.Stands) :
    partsOf (base.joinSteps steps).text =
      partsOf base.text ++ steps.map fun step => step.text.toList := by
  induction steps generalizing base with
  | nil => exact (List.append_nil _).symm
  | cons step steps ih =>
    obtain ⟨first, others⟩ := List.forall_mem_cons.mp stand
    show partsOf ((base.join ⟨step.text⟩).joinSteps steps).text = _
    rw [ih (isEmpty_join nonempty first.relative) others, partsOf_join nonempty first.relative,
      partsOf_step first, List.append_assoc, List.map_cons, List.singleton_append]

end JoinSteps

/-! ## Parents of joined paths -/

section Parents

variable {base : Path} {step : Component}

/-- A step at the end is not trimmed, -/
theorem trimEnd_step (stands : step.Stands) (rest : List Char) :
    trimEnd (step.text.toList.reverse ++ '/' :: rest) =
      step.text.toList.reverse ++ '/' :: rest := by
  have clean := stands.clean
  have own := stands.own
  generalize step.text.toList = text at clean own
  rw [← List.mem_reverse] at clean
  have notDot : text.reverse ≠ ['.'] := by
    intro dot
    rw [List.reverse_eq_cons_iff.mp dot] at own
    cases own
  cases back : text.reverse with
  | nil =>
    rw [List.reverse_eq_nil_iff.mp back] at own
    cases own
  | cons c more =>
    rw [back] at clean notDot
    rw [List.cons_append]
    conv_lhs => unfold trimEnd
    split
    next single => exact single.symm
    next slash =>
      cases slash
      exact absurd List.mem_cons_self clean
    next dot =>
      cases more with
      | nil =>
        cases dot
        exact absurd rfl notDot
      | cons c more =>
        cases dot
        exact absurd (List.mem_cons_of_mem _ List.mem_cons_self) clean
    next => rfl

/-- so that the parent of a path with a step joined is the path without slashes and lone dots at
its end. -/
theorem parent_join_step (nonempty : base.isEmpty = false) (stands : step.Stands) :
    (base.join ⟨step.text⟩).parent? =
      .some ⟨String.ofList (trimEnd base.text.toList.reverse).reverse⟩ := by
  have last : (base.join ⟨step.text⟩).components.getLast? = .some step := by
    rw [components_join nonempty stands.relative, stands.parts, List.getLast?_concat]
  obtain ⟨front, written, same⟩ := text_join nonempty stands.relative
  have cut : (trimEnd (base.join ⟨step.text⟩).text.toList.reverse).dropWhile (· ≠ '/') =
      '/' :: front.reverse := by
    rw [written, List.reverse_append, List.reverse_cons, List.append_assoc, List.singleton_append,
      trimEnd_step stands, dropWhile_ne_append _ (mt List.mem_reverse.mp stands.clean)]
  have trimmed : trimEnd ('/' :: front.reverse) = trimEnd base.text.toList.reverse := by
    rcases same with same | same
    · have filled : front.reverse ≠ [] := by
        rw [← same]
        exact fun empty => text_ne_nil nonempty (List.reverse_eq_nil_iff.mp empty)
      rw [same]
      conv_lhs => unfold trimEnd
      split <;> simp_all
    · rw [same, List.reverse_append, List.reverse_singleton, List.singleton_append]
  unfold parent?
  rw [last]
  cases step with
  | root => exact absurd rfl stands.ne_root
  | current | parent | name =>
    rw [cut]
    dsimp only
    rw [trimmed]

/-- Trimmed, a path that was joined to a root still has all its parts. -/
theorem partsOf_trimEnd {start : Path} {steps : List Component}
    (root : start = ⟨"/"⟩ ∨ start = ⟨"//"⟩) (stand : ∀ step ∈ steps, step.Stands) :
    partsOf (String.ofList (trimEnd (start.joinSteps steps).text.toList.reverse).reverse) =
      steps.map fun step => step.text.toList := by
  have own : start.isEmpty = false ∧ partsOf start.text = [] := by
    rcases root with rfl | rfl <;> decide
  rcases List.eq_nil_or_concat' steps with rfl | ⟨front, last, rfl⟩
  · rcases root with rfl | rfl <;> rfl
  · obtain ⟨others, stands⟩ := List.forall_mem_append.mp stand
    have stands := stands last (List.mem_singleton_self last)
    obtain ⟨text, written, _⟩ := text_join (isEmpty_joinSteps own.1 others) stands.relative
    have trimmed : trimEnd (start.joinSteps (front ++ [last])).text.toList.reverse =
        (start.joinSteps (front ++ [last])).text.toList.reverse := by
      rw [joinSteps_append_singleton, written, List.reverse_append, List.reverse_cons,
        List.append_assoc, List.singleton_append, trimEnd_step stands]
    rw [trimmed, List.reverse_reverse, String.ofList_toList, partsOf_joinSteps own.1 stand, own.2,
      List.nil_append]

end Parents

/-! ## Paths made absolute -/

/-- An absolute path is made absolute by joining its steps to the root, which may be written with
two slashes, and a slash at its end is kept. -/
theorem absolute_eq (workingDirectory : Path) {path : Path} (absolute : path.isAbsolute = true) :
    ∃ start : Path, (start = ⟨"/"⟩ ∨ start = ⟨"//"⟩) ∧
      Path.absolute workingDirectory path =
        if path.text.toList.getLast? = some '/'
        then (start.joinSteps (partComponents path.text.toList)).join ⟨""⟩
        else start.joinSteps (partComponents path.text.toList) := by
  have nonempty : path.isEmpty = false := by
    rw [Bool.eq_false_iff]
    intro empty
    have first : path.text.toList.head? = .some '/' := of_decide_eq_true absolute
    rw [String.toList_eq_nil_iff.mpr (String.isEmpty_iff.mp empty)] at first
    cases first
  have steps : path.components.filter (fun c => c ≠ .root ∧ c ≠ .current) =
      partComponents path.text.toList := by
    rw [components_of_isAbsolute absolute, List.filter_cons_of_neg (by simp), List.filter_eq_self]
    intro step inside
    have stands := stands_of_mem_partComponents inside
    exact decide_eq_true ⟨stands.ne_root, stands.ne_current⟩
  rw [Path.absolute, nonempty, if_neg Bool.false_ne_true, steps, absolute, if_pos rfl]
  refine ⟨if ("//".toList.isPrefixOf path.text.toList && !"///".toList.isPrefixOf path.text.toList)
    then ⟨"//"⟩ else ⟨"/"⟩, ?_, rfl⟩
  split
  · exact .inr rfl
  · exact .inl rfl

/-- Made absolute, an absolute path keeps its components. -/
theorem components_absolute (workingDirectory : Path) {path : Path}
    (absolute : path.isAbsolute = true) :
    (Path.absolute workingDirectory path).components = path.components := by
  obtain ⟨start, slashes, same⟩ := absolute_eq workingDirectory absolute
  have stand : ∀ step ∈ partComponents path.text.toList, step.Stands :=
    fun step => stands_of_mem_partComponents
  have own : start.isEmpty = false ∧ start.components = [.root] := by
    rcases slashes with rfl | rfl
    · exact ⟨rfl, rfl⟩
    · exact ⟨rfl, rfl⟩
  have joined := components_joinSteps own.1 stand
  rw [same, components_of_isAbsolute absolute]
  split
  · have nothing : partComponents "".toList = [] := rfl
    rw [components_join (isEmpty_joinSteps own.1 stand) rfl, joined, own.2, nothing,
      List.append_nil, List.singleton_append]
  · rw [joined, own.2, List.singleton_append]

end ClassAtlas.Path
