import ClassAtlas.Proofs.ClassGraph.Firsts
import ClassAtlas.Proofs.Package.Names

/-!
# Which package holds which classes

* `mem_allClasses`, `pairwise_allClasses`: in a tree that holds no class twice, the classes of a
  package and of all packages below it are those at some path from it, listed in strict order.
* `descend_injective`: different paths of a tree of classes lead to different packages, since each
  of them has a class below it that no other package holds.
* `ofClasses_arranges`: what the tree of any list of names holds, told from the names alone.
-/

namespace ClassAtlas

namespace Package

/-! ## All classes below a package -/

section Below

variable {package : Package} {name : String}

theorem preorderAll_eq (packages : List Package) :
    preorderAll packages = packages.flatMap preorder := by
  induction packages with
  | nil => rfl
  | cons package packages ih => rw [preorderAll, ih, List.flatMap_cons]

/-- The classes of a package stand in front of those of its subpackages. -/
theorem flatMap_preorder (package : Package) : package.preorder.flatMap classes =
    package.classes ++ package.subpackages.flatMap fun child => child.preorder.flatMap classes := by
  obtain ⟨segment, fullName, classes, subpackages⟩ := package
  rw [preorder, preorderAll_eq, List.flatMap_cons, List.flatMap_assoc]
  rfl

theorem mem_classesAt_cons (regular : Regular package) {step : String} {steps : List String} :
    name ∈ package.classesAt (step :: steps) ↔
      ∃ child ∈ package.subpackages, child.segment = step ∧ name ∈ child.classesAt steps := by
  simp only [mem_classesAt, descend_cons, Option.bind_eq_some_iff,
    find?_segment_eq_some_iff regular.siblings]
  constructor
  · rintro ⟨last, ⟨child, ⟨listed, same⟩, reached⟩, inside⟩
    exact ⟨child, listed, same, last, reached, inside⟩
  · rintro ⟨child, listed, same, last, reached, inside⟩
    exact ⟨last, ⟨child, ⟨listed, same⟩, reached⟩, inside⟩

theorem mem_flatMap_preorder (regular : Regular package) :
    name ∈ package.preorder.flatMap classes ↔ ∃ steps, name ∈ package.classesAt steps := by
  induction regular with
  | @mk segment fullName classes subpackages siblings named below sorted ih =>
    have whole : Regular (mk segment fullName classes subpackages) :=
      .mk siblings named below sorted
    rw [flatMap_preorder, List.mem_append, List.mem_flatMap]
    constructor
    · rintro (here | ⟨child, listed, inside⟩)
      · exact ⟨[], here⟩
      · obtain ⟨steps, there⟩ := (ih child listed).mp inside
        exact ⟨child.segment :: steps,
          (mem_classesAt_cons whole).mpr ⟨child, listed, rfl, there⟩⟩
    · rintro ⟨steps, there⟩
      cases steps with
      | nil => exact .inl there
      | cons step steps =>
        obtain ⟨child, listed, _, inside⟩ := (mem_classesAt_cons whole).mp there
        exact .inr ⟨child, listed, (ih child listed).mpr ⟨steps, inside⟩⟩

/-- No class stands at two paths. -/
def Apart (package : Package) : Prop :=
  ∀ name steps more, name ∈ package.classesAt steps → name ∈ package.classesAt more → steps = more

theorem Apart.child (apart : Apart package) (regular : Regular package) {child : Package}
    (listed : child ∈ package.subpackages) : Apart child := by
  intro name steps more here there
  have one := apart name (child.segment :: steps) (child.segment :: more)
    ((mem_classesAt_cons regular).mpr ⟨child, listed, rfl, here⟩)
    ((mem_classesAt_cons regular).mpr ⟨child, listed, rfl, there⟩)
  exact (List.cons.inj one).2

theorem nodup_flatMap_preorder (regular : Regular package) (apart : Apart package) :
    (package.preorder.flatMap classes).Nodup := by
  induction regular with
  | @mk segment fullName classes subpackages siblings named below sorted ih =>
    have whole : Regular (mk segment fullName classes subpackages) :=
      .mk siblings named below sorted
    rw [flatMap_preorder, List.nodup_append']
    refine ⟨sorted.imp fun less => ne_of_lt less, ?_, ?_⟩
    · rw [List.nodup_flatMap]
      refine ⟨fun child listed => ih child listed (apart.child whole listed), ?_⟩
      refine siblings.imp_of_mem fun {first second} inside inside' less => ?_
      -- A class below two siblings would stand at two paths.
      intro name here there
      obtain ⟨steps, left⟩ := (mem_flatMap_preorder (below first inside)).mp here
      obtain ⟨more, right⟩ := (mem_flatMap_preorder (below second inside')).mp there
      have one := apart name (first.segment :: steps) (second.segment :: more)
        ((mem_classesAt_cons whole).mpr ⟨first, inside, rfl, left⟩)
        ((mem_classesAt_cons whole).mpr ⟨second, inside', rfl, right⟩)
      exact ne_of_lt less (List.cons.inj one).1
    · intro name here there
      obtain ⟨child, listed, inside⟩ := List.mem_flatMap.mp there
      obtain ⟨steps, right⟩ := (mem_flatMap_preorder (below child listed)).mp inside
      have one := apart name [] (child.segment :: steps) here
        ((mem_classesAt_cons whole).mpr ⟨child, listed, rfl, right⟩)
      cases one

theorem mem_allClasses (regular : Regular package) :
    name ∈ package.allClasses ↔ ∃ steps, name ∈ package.classesAt steps := by
  rw [allClasses, List.mem_mergeSort, mem_flatMap_preorder regular]

theorem pairwise_allClasses (regular : Regular package) (apart : Apart package) :
    package.allClasses.Pairwise (· < ·) := by
  have nodup := nodup_flatMap_preorder regular apart
  rw [← List.map_id (package.preorder.flatMap classes)] at nodup
  exact pairwise_lt_mergeSort id nodup

end Below

/-! ## Trees of classes -/

section Trees

variable {names steps more : List String} {package : Package} {name : String}

theorem apart_ofClasses (names : List String) : Apart (ofClasses names) := by
  intro name steps more here there
  have left := (mem_classesAt_ofClasses.mp here).2
  have right := (mem_classesAt_ofClasses.mp there).2
  exact left.symm.trans right

/-- The classes from a package of the tree on are those whose path goes on from it. -/
theorem mem_classesAt_of_descend (reached : (ofClasses names).descend steps = some package) :
    name ∈ package.classesAt more ↔ name ∈ names ∧ pathOf name = steps ++ more := by
  rw [← classesAt_append reached, mem_classesAt_ofClasses]

theorem apart_of_descend (reached : (ofClasses names).descend steps = some package) :
    Apart package := by
  intro name first second here there
  rw [← classesAt_append reached] at here there
  exact List.append_cancel_left (apart_ofClasses names name _ _ here there)

theorem mem_classes_of_descend (reached : (ofClasses names).descend steps = some package) :
    name ∈ package.classes ↔ name ∈ names ∧ pathOf name = steps := by
  rw [← classesAt_of_descend reached, mem_classesAt_ofClasses]

theorem mem_allClasses_of_descend (reached : (ofClasses names).descend steps = some package) :
    name ∈ package.allClasses ↔ name ∈ names ∧ steps <+: pathOf name := by
  rw [mem_allClasses ((regular_ofClasses names).descend reached)]
  simp only [mem_classesAt_of_descend reached]
  constructor
  · rintro ⟨more, inside, leads⟩
    exact ⟨inside, more, leads.symm⟩
  · rintro ⟨inside, more, leads⟩
    exact ⟨more, inside, leads.symm⟩

/-- Different paths lead to different packages. -/
theorem descend_injective (reached : (ofClasses names).descend steps = some package)
    (reached' : (ofClasses names).descend more = some package) : steps = more := by
  -- The classes below the package have paths that go on from both.
  have beyond : ∀ rest name, name ∈ names → pathOf name = steps ++ rest → steps = more := by
    intro rest name inside leads
    have there := (mem_classesAt_of_descend reached).mpr ⟨inside, leads⟩
    have leads' := ((mem_classesAt_of_descend reached').mp there).2
    exact List.append_cancel_right (leads.symm.trans leads')
  have beyond' : ∀ rest name, name ∈ names → pathOf name = more ++ rest → steps = more := by
    intro rest name inside leads
    have there := (mem_classesAt_of_descend reached').mpr ⟨inside, leads⟩
    exact beyond rest name inside ((mem_classesAt_of_descend reached).mp there).2
  have grown := isSome_descend_ofClasses.mp (Option.isSome_of_eq_some reached)
  have grown' := isSome_descend_ofClasses.mp (Option.isSome_of_eq_some reached')
  rcases grown with start | ⟨name, inside, rest, leads⟩
  · rcases grown' with start' | ⟨name, inside, rest, leads⟩
    · rw [start, start']
    · exact beyond' rest name inside leads.symm
  · exact beyond rest name inside leads.symm

end Trees

/-! ## What the tree holds -/

/-- The tree of some classes, told from their names alone. -/
structure Arranges (names : List String) (root : Package) : Prop where
  /-- A package is found when its segments begin those of a package with a class. -/
  found : ∀ name, (root.find? name).isSome ↔ name = "" ∨
    ∃ c ∈ names, ClassName.package c ≠ "" ∧
      name.toList.splitOn '.' <+: (ClassName.package c).toList.splitOn '.'
  /-- Directly in a package are the classes with its name for their package. -/
  direct : ∀ name package, root.find? name = some package →
    package.classes.Pairwise (· < ·) ∧
      ∀ c, c ∈ package.classes ↔ c ∈ names ∧ ClassName.package c = name
  /-- Below a package are those whose package has its name, or goes on behind it with a dot. -/
  below : ∀ name package, name ≠ "" → root.find? name = some package →
    package.allClasses.Pairwise (· < ·) ∧
      ∀ c, c ∈ package.allClasses ↔ c ∈ names ∧ (ClassName.package c = name ∨
        (name ++ ".").toList <+: (ClassName.package c).toList)
  /-- Below the root are all. -/
  all : root.allClasses.Pairwise (· < ·) ∧ ∀ c, c ∈ root.allClasses ↔ c ∈ names
  /-- No class is in two packages. -/
  once : ∀ c ∈ names, ∃! steps, ∃ package, Walk root steps package ∧ c ∈ package.classes
  /-- Neither order nor repetition of the names makes a difference. -/
  unordered : ∀ others, (∀ c, c ∈ others ↔ c ∈ names) → ofClasses others = root
  /-- A name is followed along its segments, so names follow one another. -/
  composes : ∀ first second, path (joinNames first second) = path first ++ path second ∧
    (root.find? first).bind (·.find? second) = root.find? (joinNames first second)

theorem found_ofClasses (names : List String) (name : String) :
    ((ofClasses names).find? name).isSome ↔ name = "" ∨
      ∃ c ∈ names, ClassName.package c ≠ "" ∧
        name.toList.splitOn '.' <+: (ClassName.package c).toList.splitOn '.' := by
  rw [find?, isSome_descend_ofClasses, path_eq_nil_iff]
  by_cases start : name = ""
  · simp [start]
  · have leads : ∀ c, path name <+: pathOf c ↔ ClassName.package c ≠ "" ∧
        name.toList.splitOn '.' <+: (ClassName.package c).toList.splitOn '.' := by
      intro c
      by_cases outside : ClassName.package c = ""
      · have nonempty : path name ≠ [] := fun empty => start (path_eq_nil_iff.mp empty)
        simp [pathOf, outside, nonempty]
      · rw [pathOf, path_prefix_iff_splitOn start outside]
        simp [outside]
    simp only [leads]

theorem pathOf_eq_path_iff {name package : String} :
    pathOf name = path package ↔ ClassName.package name = package :=
  path_injective.eq_iff

/-- A class is in the package at the end of its path, and in no other. -/
theorem existsUnique_walk {names : List String} {name : String} (inside : name ∈ names) :
    ∃! steps, ∃ package, Walk (ofClasses names) steps package ∧ name ∈ package.classes := by
  have regular := regular_ofClasses names
  have there : ((ofClasses names).descend (pathOf name)).isSome :=
    isSome_descend_ofClasses.mpr (.inr ⟨name, inside, List.prefix_rfl⟩)
  obtain ⟨package, reached⟩ := Option.isSome_iff_exists.mp there
  refine ⟨pathOf name, ⟨package, (walk_iff regular).mpr reached, ?_⟩, ?_⟩
  · exact (mem_classes_of_descend reached).mpr ⟨inside, rfl⟩
  · rintro steps ⟨other, walk, held⟩
    have reached' := (walk_iff regular).mp walk
    exact ((mem_classes_of_descend reached').mp held).2.symm

theorem find?_bind_find? (root : Package) (first second : String) :
    (root.find? first).bind (·.find? second) = root.find? (joinNames first second) := by
  simp only [find?]
  rw [path_joinNames, descend_append]

/-- The tree of any names, whatever dots they have, holds each class in its package and nothing
else. -/
theorem ofClasses_arranges (names : List String) : Arranges names (ofClasses names) where
  found := found_ofClasses names
  direct := by
    intro name package reached
    refine ⟨((regular_ofClasses names).descend reached).sorted, ?_⟩
    intro c
    rw [mem_classes_of_descend reached, pathOf_eq_path_iff]
  below := by
    intro name package named reached
    have regular := (regular_ofClasses names).descend reached
    refine ⟨pairwise_allClasses regular (apart_of_descend reached), ?_⟩
    intro c
    rw [mem_allClasses_of_descend reached, pathOf, path_prefix_iff named]
  all := by
    refine ⟨pairwise_allClasses (regular_ofClasses names) (apart_ofClasses names), ?_⟩
    intro c
    have here : (ofClasses names).descend [] = some (ofClasses names) := rfl
    rw [mem_allClasses_of_descend here]
    simp
  once := fun _ => existsUnique_walk
  unordered := fun _ => ofClasses_congr
  composes := fun first second => ⟨path_joinNames first second, find?_bind_find? _ first second⟩

end Package

end ClassAtlas
