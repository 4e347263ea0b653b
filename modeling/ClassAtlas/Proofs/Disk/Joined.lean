import ClassAtlas.Path
import Mathlib.Data.List.Basic
import Mathlib.Data.List.TakeWhile

/-!
# Paths put together and taken apart

What joining paths does to their components and to their texts. Joining a name adds a component
(`components_join_name`), the parent has one less (`components_parent`), and names that are joined
in one go give the path that they give one after the other (`join_slashedNames`).
-/

namespace ClassAtlas.Path

/-! ## Components -/

/-- The components that the parts of a text give. -/
def partComponents (text : List Char) : List Component :=
  (text.splitOn '/').filterMap componentOfPart

/-- The component that depends on where a path starts. -/
def lead (path : Path) : List Component :=
  if path.isAbsolute then [.root]
  else if (path.text.toList.splitOn '/').head? = some ['.'] then [.current]
  else []

theorem components_eq (path : Path) :
    path.components = path.lead ++ partComponents path.text.toList := by
  unfold components lead partComponents
  split
  next absolute => rw [if_pos absolute, List.singleton_append]
  next relative split =>
    rw [if_neg (by simp [relative]), split, List.head?_cons, if_pos rfl, List.filterMap_cons]
    rfl
  next relative other =>
    rw [if_neg (by simp [relative])]
    split
    next first =>
      obtain ⟨parts, split⟩ := List.head?_eq_some_iff.mp first
      exact (other parts split).elim
    next => rfl

theorem partComponents_append_slash (front rest : List Char) :
    partComponents (front ++ '/' :: rest) = partComponents front ++ partComponents rest := by
  rw [partComponents, List.splitOn_append_cons_self, List.filterMap_append]
  rfl

theorem partComponents_nil : partComponents [] = [] := rfl

theorem lead_append_slash {front : List Char} (nonempty : front ≠ []) (rest : List Char) :
    lead ⟨String.ofList (front ++ '/' :: rest)⟩ = lead ⟨String.ofList front⟩ := by
  have first : (front ++ '/' :: rest).head? = front.head? := List.head?_append_of_ne_nil _ nonempty
  have part : ((front ++ '/' :: rest).splitOn '/').head? = (front.splitOn '/').head? := by
    rw [List.splitOn_append_cons_self, List.head?_append_of_ne_nil _ (List.splitOn_ne_nil _ _)]
  unfold lead isAbsolute
  simp only [String.toList_ofList, first, part]

/-- Text behind a slash adds its own components. -/
theorem components_append_slash {front : List Char} (nonempty : front ≠ []) (rest : List Char) :
    components ⟨String.ofList (front ++ '/' :: rest)⟩ =
      components ⟨String.ofList front⟩ ++ partComponents rest := by
  rw [components_eq, components_eq, lead_append_slash nonempty, String.toList_ofList,
    partComponents_append_slash, String.toList_ofList, List.append_assoc]

theorem components_slash (rest : List Char) :
    components ⟨String.ofList ('/' :: rest)⟩ = .root :: partComponents rest := by
  rw [components_eq, String.toList_ofList]
  have parts : partComponents ('/' :: rest) = partComponents rest :=
    partComponents_append_slash [] rest
  have start : lead ⟨String.ofList ('/' :: rest)⟩ = [.root] := by
    rw [lead, isAbsolute, String.toList_ofList, List.head?_cons, decide_eq_true rfl, if_pos rfl]
  rw [parts, start, List.singleton_append]

/-- What stands behind the last slash adds its components to what stands before and with it. -/
theorem components_behind_slash (front rest : List Char) :
    components ⟨String.ofList (front ++ '/' :: rest)⟩ =
      components ⟨String.ofList (front ++ ['/'])⟩ ++ partComponents rest := by
  by_cases empty : front = []
  · subst empty
    rw [List.nil_append, List.nil_append, components_slash, components_slash, partComponents_nil,
      List.singleton_append]
  · rw [components_append_slash empty, components_append_slash empty, partComponents_nil,
      List.append_nil]

/-! ## Joining -/

section Joining

variable {base rest : Path}

/-- Behind a path that ends in a slash a text is put as it is, behind any other after a slash. -/
theorem join_eq (nonempty : base.isEmpty = false) (relative : rest.isAbsolute = false) :
    base.join rest = if base.text.toList.getLast? = .some '/' then ⟨base.text ++ rest.text⟩
      else ⟨base.text ++ "/" ++ rest.text⟩ := by
  rw [join, nonempty, relative, Bool.or_self, if_neg Bool.false_ne_true]

/-- The text of a joined path: one slash is between the parts, be it that of the base. -/
theorem text_join (nonempty : base.isEmpty = false) (relative : rest.isAbsolute = false) :
    ∃ front, (base.join rest).text.toList = front ++ '/' :: rest.text.toList ∧
      (base.text.toList = front ∨ base.text.toList = front ++ ['/']) := by
  rw [join_eq nonempty relative]
  split
  next slash =>
    obtain ⟨front, written⟩ := List.getLast?_eq_some_iff.mp slash
    have whole : (base.text ++ rest.text).toList = front ++ '/' :: rest.text.toList := by
      simp [written]
    exact ⟨front, whole, .inr written⟩
  next =>
    have whole : (base.text ++ "/" ++ rest.text).toList =
        base.text.toList ++ '/' :: rest.text.toList := by
      simp
    exact ⟨base.text.toList, whole, .inl rfl⟩

/-- The parts of a text between slashes, those left out that have no characters. -/
def partsOf (text : String) : List (List Char) := (text.toList.splitOn '/').filter (· ≠ [])

theorem length_partsOf_le (text : String) : (partsOf text).length ≤ text.length + 1 := by
  have parts : ∀ chars : List Char, (chars.splitOn '/').length ≤ chars.length + 1 := by
    intro chars
    induction chars with
    | nil => exact Nat.le_refl _
    | cons c chars ih =>
      rw [List.splitOn_cons_eq_if_modifyHead]
      split
      · exact Nat.succ_le_succ ih
      · rw [List.length_modifyHead]
        exact Nat.le_succ_of_le ih
  rw [← String.length_toList]
  exact Nat.le_trans (List.length_filter_le _ _) (parts _)

theorem partsOf_append_slash (front rest : List Char) :
    partsOf (String.ofList (front ++ '/' :: rest)) =
      partsOf (String.ofList front) ++ partsOf (String.ofList rest) := by
  rw [partsOf, String.toList_ofList, List.splitOn_append_cons_self, List.filter_append, partsOf,
    String.toList_ofList, partsOf, String.toList_ofList]

/-- Joining adds the parts of what is joined. -/
theorem partsOf_join (nonempty : base.isEmpty = false) (relative : rest.isAbsolute = false) :
    partsOf (base.join rest).text = partsOf base.text ++ partsOf rest.text := by
  obtain ⟨front, written, same⟩ := text_join nonempty relative
  have front : partsOf (String.ofList front) = partsOf base.text := by
    rcases same with same | same
    · rw [← same, String.ofList_toList]
    · have nothing : partsOf (String.ofList []) = [] := rfl
      rw [← String.ofList_toList (s := base.text), same, partsOf_append_slash, nothing,
        List.append_nil]
  rw [← String.ofList_toList (s := (base.join rest).text), written, partsOf_append_slash, front,
    String.ofList_toList]

theorem text_ne_nil (nonempty : base.isEmpty = false) : base.text.toList ≠ [] := by
  intro blank
  have empty : base.isEmpty = true := String.isEmpty_iff.mpr (String.toList_eq_nil_iff.mp blank)
  rw [nonempty] at empty
  cases empty

theorem components_join (nonempty : base.isEmpty = false) (relative : rest.isAbsolute = false) :
    (base.join rest).components = base.components ++ partComponents rest.text.toList := by
  obtain ⟨front, written, same⟩ := text_join nonempty relative
  have whole : components ⟨String.ofList (front ++ ['/'])⟩ = base.components := by
    rcases same with same | same
    · have text := text_ne_nil nonempty
      rw [same] at text
      rw [components_append_slash text, partComponents_nil, List.append_nil, ← same,
        String.ofList_toList]
    · rw [← same, String.ofList_toList]
  rw [← whole, ← components_behind_slash, ← written, String.ofList_toList]

/-- Where a joined path starts is told by what it starts with. -/
theorem isAbsolute_join_eq (nonempty : base.isEmpty = false) (relative : rest.isAbsolute = false) :
    (base.join rest).isAbsolute = base.isAbsolute := by
  have front : ∀ more : String, isAbsolute ⟨base.text ++ more⟩ = base.isAbsolute := by
    intro more
    rw [isAbsolute, isAbsolute, String.toList_append,
      List.head?_append_of_ne_nil _ (text_ne_nil nonempty)]
  rw [join_eq nonempty relative]
  split
  · exact front _
  · rw [String.append_assoc]
    exact front _

theorem isEmpty_join (nonempty : base.isEmpty = false) (relative : rest.isAbsolute = false) :
    (base.join rest).isEmpty = false := by
  rw [Bool.eq_false_iff]
  intro empty
  obtain ⟨front, written, _⟩ := text_join nonempty relative
  have blank : (base.join rest).text.toList = [] :=
    String.toList_eq_nil_iff.mpr (String.isEmpty_iff.mp empty)
  rw [written] at blank
  exact List.append_ne_nil_of_right_ne_nil front (List.cons_ne_nil _ _) blank

/-- How a path ends is told by what it ends with. -/
theorem getLast?_text_join (nonempty : base.isEmpty = false) (relative : rest.isAbsolute = false)
    (nonempty' : rest.isEmpty = false) :
    (base.join rest).text.toList.getLast? = rest.text.toList.getLast? := by
  obtain ⟨front, written, _⟩ := text_join nonempty relative
  rw [written, List.getLast?_append_of_ne_nil _ (List.cons_ne_nil _ _),
    List.getLast?_cons_of_ne_nil (text_ne_nil nonempty')]

theorem isEmpty_of_isAbsolute (absolute : base.isAbsolute = true) : base.isEmpty = false := by
  rw [Bool.eq_false_iff]
  intro empty
  rw [isAbsolute, String.toList_eq_nil_iff.mpr (String.isEmpty_iff.mp empty)] at absolute
  cases absolute

theorem join_of_isAbsolute (absolute : rest.isAbsolute = true) : base.join rest = rest := by
  rw [join, absolute, Bool.true_or, if_pos rfl]

theorem join_of_isEmpty (empty : base.isEmpty = true) : base.join rest = rest := by
  rw [join, empty, Bool.or_true, if_pos rfl]

theorem join_assoc (base : Path) {middle rest : Path} (nonempty : middle.isEmpty = false)
    (relative : rest.isAbsolute = false) :
    (base.join middle).join rest = base.join (middle.join rest) := by
  by_cases absolute : middle.isAbsolute = true
  · have whole : (middle.join rest).isAbsolute = true := by
      rw [isAbsolute_join_eq nonempty relative]
      exact absolute
    rw [join_of_isAbsolute absolute, join_of_isAbsolute whole]
  · rw [Bool.not_eq_true] at absolute
    have whole : (middle.join rest).isAbsolute = false := by
      rw [isAbsolute_join_eq nonempty relative]
      exact absolute
    by_cases empty : base.isEmpty = true
    · rw [join_of_isEmpty empty, join_of_isEmpty empty]
    · rw [Bool.not_eq_true] at empty
      -- Whether a slash is put in front of the last part is told by the end of the middle one.
      rw [join_eq (isEmpty_join empty absolute) relative,
        getLast?_text_join empty absolute nonempty, join_eq nonempty relative,
        join_eq empty absolute]
      rw [join_eq nonempty relative] at whole
      split
      next slash =>
        rw [if_pos slash] at whole
        rw [join_eq empty whole]
        split <;> simp only [String.append_assoc]
      next plain =>
        rw [if_neg plain] at whole
        rw [join_eq empty whole]
        split <;> simp only [String.append_assoc]

/-- Joining nothing puts a slash at the end, if there is none. -/
theorem join_nothing_join (nonempty : base.isEmpty = false) (relative : rest.isAbsolute = false) :
    (base.join ⟨""⟩).join rest = base.join rest := by
  have nothing : isAbsolute ⟨""⟩ = false := rfl
  rw [join_eq (isEmpty_join nonempty nothing) relative, join_eq nonempty nothing,
    join_eq nonempty relative]
  split
  next slash =>
    have same : base.text ++ "" = base.text := String.append_empty
    rw [same, if_pos slash]
  next plain =>
    have slash : (base.text ++ "/" ++ "").toList.getLast? = .some '/' := by
      rw [String.append_empty, String.toList_append, List.getLast?_append_of_ne_nil]
      · rfl
      · decide
    rw [if_pos slash, String.append_empty]

end Joining

/-- What the children of a directory are called. -/
structure FileName (name : String) : Prop where
  nonempty : name ≠ ""
  clean : '/' ∉ name.toList
  notDot : name ≠ "."
  notDots : name ≠ ".."

instance : DecidablePred FileName := fun name =>
  decidable_of_iff (name ≠ "" ∧ '/' ∉ name.toList ∧ name ≠ "." ∧ name ≠ "..")
    ⟨fun h => ⟨h.1, h.2.1, h.2.2.1, h.2.2.2⟩, fun h => ⟨h.nonempty, h.clean, h.notDot, h.notDots⟩⟩

namespace FileName

variable {name : String}

theorem relative (h : FileName name) : Path.isAbsolute ⟨name⟩ = false := by
  apply decide_eq_false
  intro slash
  exact h.clean (List.mem_of_mem_head? slash)

theorem isEmpty (h : FileName name) : Path.isEmpty ⟨name⟩ = false := by
  rw [Bool.eq_false_iff]
  intro empty
  exact h.nonempty (String.isEmpty_iff.mp empty)

theorem component (h : FileName name) : componentOfPart name.toList = .some (.name name) := by
  unfold componentOfPart
  split
  next empty => exact (h.nonempty (String.toList_eq_nil_iff.mp empty)).elim
  next dot => exact (h.notDot (String.toList_injective dot)).elim
  next dots => exact (h.notDots (String.toList_injective dots)).elim
  next => rw [String.ofList_toList]

theorem partComponents (h : FileName name) : partComponents name.toList = [.name name] := by
  rw [Path.partComponents, List.splitOn_eq_singleton h.clean, List.filterMap_cons, h.component]
  rfl

end FileName

/-- A name in front of a slash is joined as if it were joined alone. -/
theorem join_slash_join (base : Path) {name rest : String} (named : FileName name)
    (relative : Path.isAbsolute ⟨rest⟩ = false) :
    base.join ⟨name ++ "/" ++ rest⟩ = (base.join ⟨name⟩).join ⟨rest⟩ := by
  have plain : name.toList.getLast? ≠ .some '/' := by
    intro slash
    exact named.clean (List.mem_of_getLast? slash)
  rw [join_assoc base named.isEmpty relative, join_eq named.isEmpty relative, if_neg plain]

/-- The path with names joined one after the other. -/
def joinAll (base : Path) (names : List String) : Path :=
  names.foldl (fun path name => path.join ⟨name⟩) base

/-- Names with a slash behind each. -/
def slashedNames (names : List String) : String :=
  names.foldr (fun name rest => name ++ "/" ++ rest) ""

theorem isAbsolute_slashedNames {names : List String} (named : ∀ name ∈ names, FileName name) :
    isAbsolute ⟨slashedNames names⟩ = false := by
  cases names with
  | nil => rfl
  | cons name names =>
    obtain ⟨first, _⟩ := List.forall_mem_cons.mp named
    have start : (slashedNames (name :: names)).toList.head? = name.toList.head? := by
      show (name ++ "/" ++ slashedNames names).toList.head? = _
      rw [String.append_assoc, String.toList_append, List.head?_append_of_ne_nil]
      exact fun empty => first.nonempty (String.toList_eq_nil_iff.mp empty)
    rw [isAbsolute, start]
    exact decide_eq_false fun slash => first.clean (List.mem_of_mem_head? slash)

/-- Names that are joined in one go are joined one after the other. -/
theorem join_slashedNames (base : Path) {names : List String}
    (named : ∀ name ∈ names, FileName name) :
    base.join ⟨slashedNames names⟩ = (base.joinAll names).join ⟨""⟩ := by
  induction names generalizing base with
  | nil => rfl
  | cons name names ih =>
    obtain ⟨first, others⟩ := List.forall_mem_cons.mp named
    show base.join ⟨name ++ "/" ++ slashedNames names⟩ = _
    rw [join_slash_join base first (isAbsolute_slashedNames others), ih _ others]
    rfl

theorem isEmpty_joinAll {base : Path} {names : List String} (nonempty : base.isEmpty = false)
    (named : ∀ name ∈ names, FileName name) : (base.joinAll names).isEmpty = false := by
  induction names generalizing base with
  | nil => exact nonempty
  | cons name names ih =>
    obtain ⟨first, others⟩ := List.forall_mem_cons.mp named
    exact ih (isEmpty_join nonempty first.relative) others

theorem joinAll_append (base : Path) (names more : List String) :
    base.joinAll (names ++ more) = (base.joinAll names).joinAll more := List.foldl_append

/-- A slash behind a directory does not change where names lead from there. -/
theorem joinAll_join_nothing {base : Path} {names : List String} (filled : names ≠ [])
    (nonempty : base.isEmpty = false) (named : ∀ name ∈ names, FileName name) :
    (base.join ⟨""⟩).joinAll names = base.joinAll names := by
  obtain ⟨first, others, rfl⟩ := List.exists_cons_of_ne_nil filled
  have relative := (named first List.mem_cons_self).relative
  show ((base.join ⟨""⟩).join ⟨first⟩).joinAll others = (base.join ⟨first⟩).joinAll others
  rw [join_nothing_join nonempty relative]

theorem components_join_name {base : Path} {name : String} (nonempty : base.isEmpty = false)
    (named : FileName name) :
    (base.join ⟨name⟩).components = base.components ++ [.name name] := by
  rw [components_join nonempty named.relative, named.partComponents]

/-! ## File names -/

theorem fileName?_eq_some_iff {path : Path} {name : String} :
    path.fileName? = some name ↔ path.components.getLast? = some (.name name) := by
  unfold fileName?
  constructor
  · intro named
    split at named
    next last => rw [last, Option.some.inj named]
    next => cases named
  · intro last
    rw [last]

theorem fileName?_join_name {base : Path} {name : String} (nonempty : base.isEmpty = false)
    (named : FileName name) : (base.join ⟨name⟩).fileName? = .some name := by
  rw [fileName?_eq_some_iff, components_join_name nonempty named, List.getLast?_concat]

/-! ## Parents -/

/-- Slashes and lone dots at the end of a path do not count. -/
theorem components_trimEnd (reversed : List Char) :
    components ⟨String.ofList (trimEnd reversed).reverse⟩ =
      components ⟨String.ofList reversed.reverse⟩ := by
  fun_induction trimEnd reversed with
  | case1 => rfl
  | case2 rest nonempty ih =>
    have front : rest.reverse ≠ [] := fun empty => nonempty (List.reverse_eq_nil_iff.mp empty)
    rw [ih, List.reverse_cons, components_append_slash front, partComponents_nil, List.append_nil]
  | case3 rest ih =>
    have dot : partComponents ['.'] = [] := rfl
    rw [ih, List.reverse_cons, List.reverse_cons, List.reverse_cons, List.append_assoc,
      List.singleton_append, components_behind_slash _ ['.'], dot, List.append_nil]
  | case4 => rfl

/-- What is trimmed is a slash, or ends neither in a slash nor in a lone dot. -/
theorem trimEnd_cases (reversed : List Char) : trimEnd reversed = ['/'] ∨
    ∀ rest, trimEnd reversed ≠ '/' :: rest ∧ trimEnd reversed ≠ '.' :: '/' :: rest := by
  fun_induction trimEnd reversed with
  | case1 => exact .inl rfl
  | case2 rest nonempty ih => exact ih
  | case3 rest ih => exact ih
  | case4 reversed single slash dot =>
    right
    intro rest
    constructor
    · exact fun same => slash rest same
    · exact fun same => dot rest same

/-- A part without slashes that counts is one component. -/
theorem partComponents_single {part : List Char} (clean : '/' ∉ part) (nonempty : part ≠ [])
    (notDot : part ≠ ['.']) : ∃ component, partComponents part = [component] := by
  rw [partComponents, List.splitOn_eq_singleton clean]
  by_cases dots : part = ['.', '.']
  · rw [dots]
    exact ⟨.parent, rfl⟩
  · have counts : componentOfPart part = .some (.name (String.ofList part)) := by
      unfold componentOfPart
      split
      · contradiction
      · contradiction
      · contradiction
      · rfl
    rw [List.filterMap_cons, counts]
    exact ⟨_, rfl⟩

/-- Without slashes there is one component at most. -/
theorem dropLast_components_part {part : List Char} (clean : '/' ∉ part) :
    (components ⟨String.ofList part⟩).dropLast = [] := by
  by_cases empty : part = []
  · rw [empty]
    rfl
  · by_cases dot : part = ['.']
    · rw [dot]
      rfl
    · obtain ⟨component, single⟩ := partComponents_single clean empty dot
      have relative : isAbsolute ⟨String.ofList part⟩ = false := by
        apply decide_eq_false
        rw [String.toList_ofList]
        exact fun slash => clean (List.mem_of_mem_head? slash)
      have start : lead ⟨String.ofList part⟩ = [] := by
        rw [lead, relative, if_neg Bool.false_ne_true, String.toList_ofList,
          List.splitOn_eq_singleton clean, if_neg]
        exact fun same => dot (Option.some.inj same)
      rw [components_eq, start, String.toList_ofList, single]
      rfl

/-- What is dropped of a trimmed text is its last part, up to the slash in front of it or to the
start. -/
theorem dropLast_components_trimmed {trimmed : List Char}
    (neither : ∀ rest, trimmed ≠ '/' :: rest ∧ trimmed ≠ '.' :: '/' :: rest) :
    (components ⟨String.ofList trimmed.reverse⟩).dropLast =
      components ⟨String.ofList (trimmed.dropWhile (· ≠ '/')).reverse⟩ := by
  by_cases slash : '/' ∈ trimmed
  · obtain ⟨part, front, rfl, clean⟩ := List.eq_append_cons_of_mem slash
    have nonempty : part.reverse ≠ [] := by
      intro empty
      rw [List.reverse_eq_nil_iff.mp empty] at neither
      exact (neither front).1 rfl
    have notDot : part.reverse ≠ ['.'] := by
      intro dot
      rw [List.reverse_eq_cons_iff.mp dot] at neither
      exact (neither front).2 rfl
    obtain ⟨component, single⟩ :=
      partComponents_single (mt List.mem_reverse.mp clean) nonempty notDot
    have text : (part ++ '/' :: front).reverse = front.reverse ++ '/' :: part.reverse := by simp
    rw [text, components_behind_slash, single, List.dropLast_concat,
      dropWhile_ne_append front clean, List.reverse_cons]
  · rw [dropLast_components_part (mt List.mem_reverse.mp slash), dropWhile_ne_eq_nil slash]
    rfl

/-- The parent is written with all components but the last. -/
theorem components_parent {path parent : Path} (h : path.parent? = some parent) :
    parent.components = path.components.dropLast := by
  have whole : path.components =
      components ⟨String.ofList (trimEnd path.text.toList.reverse).reverse⟩ := by
    rw [components_trimEnd, List.reverse_reverse, String.ofList_toList]
  unfold parent? at h
  split at h
  · cases h
  · cases h
  next component notRoot last =>
    cases h
    rw [components_trimEnd]
    rcases trimEnd_cases path.text.toList.reverse with slash | neither
    · rw [whole, slash] at last
      cases last
      exact absurd rfl notRoot
    · rw [whole, dropLast_components_trimmed neither]

/-- A name at the end of a path stands behind the components of the parent. -/
theorem exists_parent {path : Path} {name : String} (named : path.fileName? = some name) :
    ∃ parent, path.parent? = some parent ∧ path.components = parent.components ++ [.name name] := by
  have last := fileName?_eq_some_iff.mp named
  obtain ⟨parent, up⟩ : ∃ parent, path.parent? = some parent := by
    rw [parent?, last]
    exact ⟨_, rfl⟩
  exact ⟨parent, up, by rw [components_parent up, List.dropLast_append_getLast? _ last]⟩

end ClassAtlas.Path
