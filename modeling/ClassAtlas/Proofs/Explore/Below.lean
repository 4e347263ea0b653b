import ClassAtlas.Path
import ClassAtlas.Proofs.Disk.Joined
import ClassAtlas.Proofs.Package.Names

/-!
# Paths below a directory

What a path has below a directory, written with slashes, tells which path it is: the steps behind
the first step of a path are `..` or names, and no name holds a slash.
-/

namespace ClassAtlas.Path

/-! ## Steps -/

/-- A step that can stand behind another one. -/
inductive Component.Inner : Component → Prop
  | parent : Inner .parent
  | name {text : String} (nonempty : text ≠ "") (up : text ≠ "..") (clean : '/' ∉ text.toList) :
    Inner (.name text)

theorem inner_of_part {part : List Char} {step : Component} (clean : '/' ∉ part)
    (h : componentOfPart part = some step) : step.Inner := by
  unfold componentOfPart at h
  split at h
  · cases h
  · cases h
  · cases h
    exact .parent
  next nonempty _ up =>
    cases h
    refine .name ?_ ?_ ?_
    · intro empty
      apply nonempty
      rw [← String.toList_ofList (l := part), empty]
      rfl
    · intro dots
      apply up
      rw [← String.toList_ofList (l := part), dots]
      rfl
    · rwa [String.toList_ofList]

theorem inner_of_mem_parts {text : List Char} {step : Component}
    (h : step ∈ partComponents text) : step.Inner := by
  obtain ⟨part, there, counts⟩ := List.mem_filterMap.mp h
  exact inner_of_part (not_mem_of_mem_splitOn there) counts

theorem inner_of_mem_tail {path : Path} {step : Component}
    (h : step ∈ path.components.tail) : step.Inner := by
  rw [components_eq, lead] at h
  split at h
  · exact inner_of_mem_parts h
  · split at h
    · exact inner_of_mem_parts h
    · exact inner_of_mem_parts (List.mem_of_mem_tail h)

theorem inner_of_name {path : Path} {text : String} (h : .name text ∈ path.components) :
    (Component.name text).Inner := by
  rw [components_eq] at h
  rcases List.mem_append.mp h with front | inside
  · rw [lead] at front
    split at front
    · cases List.mem_singleton.mp front
    · split at front
      · cases List.mem_singleton.mp front
      · cases front
  · exact inner_of_mem_parts inside

namespace Component.Inner

variable {step other : Component}

theorem clean (h : step.Inner) : '/' ∉ step.text.toList := by
  cases h with
  | parent => decide
  | name _ _ clean => exact clean

theorem text_ne (h : step.Inner) : step.text ≠ "" := by
  cases h with
  | parent => decide
  | name nonempty _ _ => exact nonempty

theorem eq_of_text (h : step.Inner) (h' : other.Inner) (same : step.text = other.text) :
    step = other := by
  cases h with
  | parent =>
    cases h' with
    | parent => rfl
    | name _ up _ => exact absurd same.symm up
  | name _ up _ =>
    cases h' with
    | parent => exact absurd same up
    | name => exact congrArg Component.name same

end Component.Inner

theorem mem_of_fileName {path : Path} {name : String} (h : path.fileName? = some name) :
    .name name ∈ path.components :=
  List.mem_of_getLast? (fileName?_eq_some_iff.mp h)

/-- No file name holds a slash. -/
theorem clean_fileName {path : Path} {name : String} (h : path.fileName? = some name) :
    '/' ∉ name.toList :=
  (inner_of_name (mem_of_fileName h)).clean

theorem clean_stem {path : Path} {stem : String} (h : path.stem? = some stem) :
    '/' ∉ stem.toList := by
  obtain ⟨parts, split, rfl⟩ := Option.map_eq_some_iff.mp h
  obtain ⟨name, named, rfl⟩ := Option.map_eq_some_iff.mp split
  have clean := clean_fileName named
  split
  next front back cut =>
    obtain ⟨whole, _⟩ := eq_append_of_splitAtLast cut
    rw [String.toList_ofList]
    intro inside
    apply clean
    rw [whole]
    exact List.mem_append_left _ inside
  next => exact clean

/-! ## Steps in a row -/

/-- Steps written with slashes between them. -/
def written (steps : List Component) : String := String.intercalate "/" (steps.map Component.text)

theorem splitOn_written {steps : List Component} (inner : ∀ step ∈ steps, step.Inner)
    (nonempty : steps ≠ []) :
    (written steps).toList.splitOn '/' = steps.map fun step => step.text.toList := by
  have clean : ∀ part ∈ steps.map fun step => step.text.toList, '/' ∉ part := by
    intro part inside
    obtain ⟨step, there, rfl⟩ := List.mem_map.mp inside
    exact (inner step there).clean
  rw [written, String.toList_intercalate, List.map_map]
  exact List.splitOn_intercalate '/' clean (by simpa using nonempty)

theorem written_ne {steps : List Component} (inner : ∀ step ∈ steps, step.Inner)
    (nonempty : steps ≠ []) : written steps ≠ "" := by
  intro empty
  have parts := splitOn_written inner nonempty
  rw [empty] at parts
  cases steps with
  | nil => exact nonempty rfl
  | cons first others =>
    have blank : first.text.toList = [] := (List.cons.inj parts).1.symm
    exact (inner first List.mem_cons_self).text_ne (String.toList_eq_nil_iff.mp blank)

theorem written_injective {steps others : List Component} (inner : ∀ step ∈ steps, step.Inner)
    (inner' : ∀ step ∈ others, step.Inner) (same : written steps = written others) :
    steps = others := by
  by_cases empty : steps = []
  · by_contra different
    have nonempty : others ≠ [] := fun empty' => different (empty.trans empty'.symm)
    apply written_ne inner' nonempty
    rw [← same, empty]
    rfl
  · have nonempty : others ≠ [] := by
      intro empty'
      apply written_ne inner empty
      rw [same, empty']
      rfl
    have texts : steps.map (fun step => step.text.toList) =
        others.map fun step => step.text.toList := by
      rw [← splitOn_written inner empty, same, splitOn_written inner' nonempty]
    clear same empty nonempty
    induction steps generalizing others with
    | nil => exact (List.map_eq_nil_iff.mp texts.symm).symm
    | cons step steps ih =>
      cases others with
      | nil => cases texts
      | cons other others =>
        obtain ⟨first, rest⟩ := List.cons.inj texts
        have head : step = other :=
          (inner step List.mem_cons_self).eq_of_text (inner' other List.mem_cons_self)
            (String.toList_injective first)
        have tail := ih (fun step there => inner step (List.mem_cons_of_mem _ there))
          (fun step there => inner' step (List.mem_cons_of_mem _ there)) rest
        rw [head, tail]

/-! ## Below a directory -/

theorem components_of_below {path directory : Path} {below : List Component}
    (h : path.componentsBelow? directory = some below) :
    path.components = directory.components ++ below :=
  (List.isPrefixOf?_eq_some_iff_append_eq.mp h).symm

theorem inner_of_below {path directory : Path} {below : List Component}
    (rooted : directory.components ≠ []) (h : path.componentsBelow? directory = some below) :
    ∀ step ∈ below, step.Inner := by
  intro step inside
  have behind : step ∈ path.components.tail := by
    rw [components_of_below h, List.tail_append_of_ne_nil rooted]
    exact List.mem_append_right _ inside
  exact inner_of_mem_tail behind

/-- Paths that are written alike below a directory are the same. -/
theorem same_of_written {path other directory : Path} {below below' : List Component}
    (rooted : directory.components ≠ []) (h : path.componentsBelow? directory = some below)
    (h' : other.componentsBelow? directory = some below')
    (texts : written below = written below') : path.same other = true := by
  have equal := written_injective (inner_of_below rooted h) (inner_of_below rooted h') texts
  rw [same, decide_eq_true_iff, components_of_below h, components_of_below h', equal]

end ClassAtlas.Path
