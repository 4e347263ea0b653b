import ClassAtlas.Proofs.Package.Tree

/-!
# Dotted names and paths

The path of a dotted name is the list of its segments, so a name is determined by its path
(`path_injective`), and a name below another one goes on where the path of the other ends
(`path_joinNames`, `path_prefix_iff`).

The full name of a package is put together while the tree grows. `path_fullName`: its path is the
path to the package without the empty segments at the front.
-/

namespace ClassAtlas

/-! ## Segments -/

theorem not_mem_of_mem_splitOn {c : Char} {text part : List Char} (h : part ∈ text.splitOn c) :
    c ∉ part := by
  induction text generalizing part with
  | nil =>
    rw [List.splitOn_nil, List.mem_singleton] at h
    simp [h]
  | cons d rest ih =>
    rw [List.splitOn_cons_eq_if_modifyHead] at h
    split at h
    next =>
      rcases List.mem_cons.mp h with rfl | h
      · exact List.not_mem_nil
      · exact ih h
    next different =>
      -- The character goes in front of the first part of the rest.
      cases parts : rest.splitOn c with
      | nil => exact absurd parts (List.splitOn_ne_nil c rest)
      | cons first others =>
        rw [parts, List.modifyHead_cons] at h
        rw [parts] at ih
        rcases List.mem_cons.mp h with rfl | h
        · rw [List.mem_cons, not_or]
          exact ⟨fun same => different (by simp [same]), ih List.mem_cons_self⟩
        · exact ih (List.mem_cons_of_mem _ h)

theorem splitOn_injective (c : Char) : Function.Injective (List.splitOn c) := by
  intro first second same
  have whole : [c].intercalate (first.splitOn c) = first := List.intercalate_splitOn c
  rw [← whole, same, List.intercalate_splitOn]

/-- The segments of one text begin those of another when the other goes on behind a separator. -/
theorem splitOn_prefix_iff {c : Char} {first second : List Char} :
    first.splitOn c <+: second.splitOn c ↔ first = second ∨ first ++ [c] <+: second := by
  constructor
  · rintro ⟨more, whole⟩
    by_cases empty : more = []
    · subst empty
      rw [List.append_nil] at whole
      exact .inl (splitOn_injective c whole)
    · right
      have clean : ∀ part ∈ more, c ∉ part := by
        intro part member
        have inside : part ∈ second.splitOn c := whole ▸ List.mem_append_right _ member
        exact not_mem_of_mem_splitOn inside
      have joined : (first ++ c :: [c].intercalate more).splitOn c = second.splitOn c := by
        rw [List.splitOn_append_cons_self, List.splitOn_intercalate c clean empty, whole]
      refine ⟨[c].intercalate more, ?_⟩
      rw [List.append_assoc, List.singleton_append]
      exact splitOn_injective c joined
  · rintro (rfl | ⟨rest, rfl⟩)
    · exact List.prefix_rfl
    · rw [List.append_assoc, List.singleton_append, List.splitOn_append_cons_self]
      exact List.prefix_append _ _

namespace Package

/-! ## Paths of names -/

@[simp] theorem path_empty : path "" = [] := rfl

theorem path_eq {name : String} (h : name ≠ "") :
    path name = (name.toList.splitOn '.').map String.ofList := by
  rw [path, if_neg (by simpa using h)]

theorem path_eq_nil_iff {name : String} : path name = [] ↔ name = "" := by
  constructor
  · intro empty
    by_contra h
    rw [path_eq h, List.map_eq_nil_iff] at empty
    exact List.splitOn_ne_nil _ _ empty
  · rintro rfl
    rfl

theorem map_ofList_injective : Function.Injective (List.map String.ofList) :=
  List.map_injective_iff.mpr fun _ _ same => String.ofList_injective same

theorem path_injective : Function.Injective path := by
  intro first second same
  by_cases empty : first = ""
  · subst empty
    exact (path_eq_nil_iff.mp same.symm).symm
  · have nonempty' : second ≠ "" := by
      rintro rfl
      exact empty (path_eq_nil_iff.mp same)
    rw [path_eq empty, path_eq nonempty'] at same
    exact String.toList_injective (splitOn_injective _ (map_ofList_injective same))

/-- A name without dots is its only segment. -/
theorem path_of_not_mem {name : String} (h : name ≠ "") (plain : '.' ∉ name.toList) :
    path name = [name] := by
  rw [path_eq h, List.splitOn_eq_singleton plain, List.map_singleton, String.ofList_toList]

/-- The segments in front of a dot and those behind it. An empty part has one segment here. -/
theorem path_append_dot (first second : String) :
    path (first ++ "." ++ second) = (first.toList.splitOn '.').map String.ofList ++
      (second.toList.splitOn '.').map String.ofList := by
  have whole : (first ++ "." ++ second).toList = first.toList ++ '.' :: second.toList := by simp
  have nonempty : first ++ "." ++ second ≠ "" := by
    intro empty
    rw [empty] at whole
    exact List.append_ne_nil_of_right_ne_nil _ (List.cons_ne_nil _ _) whole.symm
  rw [path_eq nonempty, whole, List.splitOn_append_cons_self, List.map_append]

theorem path_joinNames (first second : String) :
    path (joinNames first second) = path first ++ path second := by
  rw [joinNames]
  by_cases empty : first = ""
  · subst empty
    rfl
  · rw [if_neg (by simpa using empty)]
    by_cases empty' : second = ""
    · subst empty'
      simp
    · rw [if_neg (by simpa using empty'), path_append_dot, path_eq empty, path_eq empty']

theorem path_prefix_iff_splitOn {first second : String} (h : first ≠ "") (h' : second ≠ "") :
    path first <+: path second ↔ first.toList.splitOn '.' <+: second.toList.splitOn '.' := by
  rw [path_eq h, path_eq h']
  constructor
  · rintro ⟨more, whole⟩
    obtain ⟨front, back, split, left, rfl⟩ := List.append_eq_map_iff.mp whole
    rw [map_ofList_injective left] at split
    exact ⟨back, split.symm⟩
  · intro begins
    exact begins.map _

/-- One path begins another when the names are the same or the other goes on behind a dot. -/
theorem path_prefix_iff {first second : String} (h : first ≠ "") :
    path first <+: path second ↔ second = first ∨ (first ++ ".").toList <+: second.toList := by
  by_cases empty : second = ""
  · subst empty
    have nonempty : path first ≠ [] := fun empty => h (path_eq_nil_iff.mp empty)
    simp [nonempty, Ne.symm h]
  · have dot : ".".toList = ['.'] := rfl
    rw [path_prefix_iff_splitOn h empty, splitOn_prefix_iff, String.toList_append, dot,
      String.toList_inj, eq_comm]

theorem not_mem_of_mem_path {name step : String} (h : step ∈ path name) : '.' ∉ step.toList := by
  by_cases empty : name = ""
  · subst empty
    cases h
  · rw [path_eq empty] at h
    obtain ⟨part, inside, rfl⟩ := List.mem_map.mp h
    rw [String.toList_ofList]
    exact not_mem_of_mem_splitOn inside

/-! ## The package and the simple part of a name -/

/-- A name either has no dot, or its last dot stands between the package and the simple part. -/
theorem parts_of_name (name : String) :
    ('.' ∉ name.toList ∧ ClassName.package name = "" ∧ ClassName.simplePart name = name) ∨
      (name = ClassName.package name ++ "." ++ ClassName.simplePart name ∧
        '.' ∉ (ClassName.simplePart name).toList) := by
  cases parts : splitAtLast '.' name.toList with
  | none =>
    refine .inl ⟨splitAtLast_eq_none_iff.mp parts, ?_, ?_⟩
    · rw [ClassName.package, parts]
    · rw [ClassName.simplePart, parts]
  | some found =>
    obtain ⟨before, after⟩ := found
    obtain ⟨whole, last⟩ := eq_append_of_splitAtLast parts
    have front : ClassName.package name = String.ofList before := by
      rw [ClassName.package, parts]
    have back : ClassName.simplePart name = String.ofList after := by
      rw [ClassName.simplePart, parts]
    right
    rw [front, back]
    refine ⟨?_, by rwa [String.toList_ofList]⟩
    apply String.toList_injective
    simp [whole]

/-- Without its last segment the path of a name leads to the package around, unless the name starts
with a dot. -/
theorem path_package {name : String} (h : (path name).head? ≠ some "") :
    path (ClassName.package name) = (path name).dropLast := by
  rcases parts_of_name name with ⟨plain, front, _⟩ | ⟨whole, last⟩
  · rw [front]
    by_cases empty : name = ""
    · subst empty
      rfl
    · rw [path_of_not_mem empty plain]
      rfl
  · generalize ClassName.package name = front at whole ⊢
    generalize ClassName.simplePart name = back at whole last
    subst whole
    rw [path_append_dot, List.splitOn_eq_singleton last, List.map_singleton,
      List.dropLast_concat] at *
    have nonempty : front ≠ "" := by
      rintro rfl
      exact h rfl
    exact path_eq nonempty

/-! ## Full names -/

/-- The full name that a package gets at the end of a path, counted from a package of this name. -/
def nameAlong (start : String) (steps : List String) : String :=
  steps.foldl (fun parent step => (childOf parent step).fullName) start

theorem Walk.fullName {package last : Package} {steps : List String} (regular : Regular package)
    (walk : Walk package steps last) : last.fullName = nameAlong package.fullName steps := by
  induction walk with
  | stay => rfl
  | down listed _ ih =>
    obtain ⟨below, named⟩ := regular.child listed
    rw [ih below, named]
    rfl

theorem path_fullName_childOf {parent step : String} (h : parent ≠ "")
    (plain : '.' ∉ step.toList) : path (childOf parent step).fullName = path parent ++ [step] := by
  have name : (childOf parent step).fullName = parent ++ "." ++ step := by
    rw [childOf, if_neg (by simpa using h)]
    rfl
  rw [name, path_append_dot, path_eq h, List.splitOn_eq_singleton plain, List.map_singleton,
    String.ofList_toList]

theorem path_nameAlong_of_ne {start : String} {steps : List String} (h : start ≠ "")
    (plain : ∀ step ∈ steps, '.' ∉ step.toList) :
    path (nameAlong start steps) = path start ++ steps := by
  induction steps generalizing start with
  | nil => exact (List.append_nil _).symm
  | cons step steps ih =>
    have next := path_fullName_childOf h (plain step List.mem_cons_self)
    have nonempty : (childOf start step).fullName ≠ "" := by
      intro empty
      rw [empty, path_empty] at next
      exact List.append_ne_nil_of_right_ne_nil _ (List.cons_ne_nil _ _) next.symm
    have rest := ih nonempty fun other member => plain other (List.mem_cons_of_mem _ member)
    rw [next, List.append_assoc, List.singleton_append] at rest
    exact rest

/-- Empty segments leave no trace in a name as long as nothing stands in front of them. -/
theorem path_nameAlong {steps : List String} (plain : ∀ step ∈ steps, '.' ∉ step.toList) :
    path (nameAlong "" steps) = steps.dropWhile (· = "") := by
  induction steps with
  | nil => rfl
  | cons step steps ih =>
    have rest := fun other member => plain other (List.mem_cons_of_mem step member)
    have first : (childOf "" step).fullName = step := rfl
    rw [nameAlong, List.foldl_cons, first, ← nameAlong]
    by_cases empty : step = ""
    · subst empty
      rw [ih rest, List.dropWhile_cons_of_pos (by simp)]
    · rw [path_nameAlong_of_ne empty rest, List.dropWhile_cons_of_neg (by simpa using empty),
        path_of_not_mem empty (plain step List.mem_cons_self), List.singleton_append]

/-- No segment on the way to a package of the tree has a dot. -/
theorem not_mem_of_descend {names steps : List String} {package : Package}
    (reached : (ofClasses names).descend steps = some package) :
    ∀ step ∈ steps, '.' ∉ step.toList := by
  intro step member
  have there := isSome_descend_ofClasses.mp (Option.isSome_of_eq_some reached)
  rcases there with rfl | ⟨name, _, leads⟩
  · cases member
  · exact not_mem_of_mem_path (leads.subset member)

theorem fullName_ofClasses (names : List String) : (ofClasses names).fullName = "" := by
  induction names using List.reverseRecOn with
  | nil => rfl
  | append_singleton names name ih =>
    rw [ofClasses_append_singleton, insert, fullName_insertAt, ih]

/-- The full name of a package tells its path but for empty segments at the front. -/
theorem path_fullName {names steps : List String} {package : Package}
    (reached : (ofClasses names).descend steps = some package) :
    path package.fullName = steps.dropWhile (· = "") := by
  have regular := regular_ofClasses names
  have walk := (walk_iff regular).mpr reached
  rw [walk.fullName regular, fullName_ofClasses]
  exact path_nameAlong (not_mem_of_descend reached)

end Package

end ClassAtlas
