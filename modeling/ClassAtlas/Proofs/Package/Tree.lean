import ClassAtlas.Proofs.Package.Insertion
import Mathlib.Data.List.Induction
import Mathlib.Data.List.Nodup

/-!
# What insertions put into a package tree

A package is known by the path that leads to it, so a tree is described by what stands at each path.

* `Regular`: siblings ascend, so a path leads to at most one package, and each package is named
  after the one around it. Insertion keeps this (`Regular.insertAt`).
* `isSome_descend_insertAt`, `classesAt_insertAt`: an insertion adds the packages on its path, and
  one class to the package at the end of it.
* `Walk` goes down by membership in the lists of subpackages and `descend` by looking segments up.
  In a regular tree both reach the same (`walk_iff`).
* `ofClasses_congr`: neither order nor repetition of the classes makes a difference.
-/

namespace ClassAtlas

/-! ## Ascending lists -/

section Ascending

variable {text other : String} {texts : List String}

theorem mem_insertAscending :
    other ∈ insertAscending text texts ↔ other = text ∨ other ∈ texts := by
  induction texts with
  | nil => simp [insertAscending]
  | cons first rest ih =>
    rcases lt_trichotomy text first with less | rfl | greater
    · rw [insertAscending_cons_of_lt less, List.mem_cons]
    · rw [insertAscending_cons_self]
      simp
    · rw [insertAscending_cons_of_gt greater, List.mem_cons, ih, List.mem_cons]
      tauto

theorem pairwise_insertAscending (ascending : texts.Pairwise (· < ·)) :
    (insertAscending text texts).Pairwise (· < ·) := by
  induction texts with
  | nil => exact List.pairwise_singleton _ _
  | cons first rest ih =>
    obtain ⟨below, tail⟩ := List.pairwise_cons.mp ascending
    rcases lt_trichotomy text first with less | rfl | greater
    · rw [insertAscending_cons_of_lt less]
      apply List.pairwise_cons.mpr
      refine ⟨?_, ascending⟩
      intro other member
      rcases List.mem_cons.mp member with rfl | inside
      · exact less
      · exact lt_trans less (below other inside)
    · rwa [insertAscending_cons_self]
    · rw [insertAscending_cons_of_gt greater]
      apply List.pairwise_cons.mpr
      refine ⟨?_, ih tail⟩
      intro other member
      rcases mem_insertAscending.mp member with rfl | inside
      · exact greater
      · exact below other inside

theorem mem_foldl_insertAscending {names : List String} :
    text ∈ names.foldl (fun texts name => insertAscending name texts) texts ↔
      text ∈ names ∨ text ∈ texts := by
  induction names generalizing texts with
  | nil => simp
  | cons name names ih =>
    rw [List.foldl_cons, ih, mem_insertAscending, List.mem_cons, or_left_comm, or_assoc]

theorem pairwise_foldl_insertAscending (names : List String)
    (ascending : texts.Pairwise (· < ·)) :
    (names.foldl (fun texts name => insertAscending name texts) texts).Pairwise (· < ·) := by
  induction names generalizing texts with
  | nil => exact ascending
  | cons name names ih => exact ih (pairwise_insertAscending ascending)

theorem insertAscending_idem (text : String) (texts : List String) :
    insertAscending text (insertAscending text texts) = insertAscending text texts := by
  induction texts with
  | nil => exact insertAscending_cons_self
  | cons first rest ih =>
    rcases lt_trichotomy text first with less | rfl | greater
    · rw [insertAscending_cons_of_lt less, insertAscending_cons_self]
    · rw [insertAscending_cons_self, insertAscending_cons_self]
    · rw [insertAscending_cons_of_gt greater, insertAscending_cons_of_gt greater, ih]

end Ascending

namespace Package

/-! ## Siblings -/

/-- Packages in the order of their segments, none twice. -/
abbrev Ascending (packages : List Package) : Prop :=
  packages.Pairwise fun first second => first.segment < second.segment

section Siblings

variable {step : String} {revision : Package → Package} {fresh : Package}
  {packages : List Package}

/-- What stands among revised siblings stood there, or is a revision under the segment. -/
theorem mem_revise {package : Package} (named : fresh.segment = step)
    (h : package ∈ revise step revision fresh packages) :
    package ∈ packages ∨
      ∃ old, old.segment = step ∧ (old ∈ packages ∨ old = fresh) ∧ package = revision old := by
  induction packages with
  | nil =>
    rw [revise, List.mem_singleton] at h
    exact .inr ⟨fresh, named, .inr rfl, h⟩
  | cons first rest ih =>
    rcases lt_trichotomy step first.segment with less | same | greater
    · rw [revise_cons_of_lt less, List.mem_cons] at h
      rcases h with rfl | h
      · exact .inr ⟨fresh, named, .inr rfl, rfl⟩
      · exact .inl h
    · rw [revise_cons_of_eq same.symm, List.mem_cons] at h
      rcases h with rfl | h
      · exact .inr ⟨first, same.symm, .inl List.mem_cons_self, rfl⟩
      · exact .inl (List.mem_cons_of_mem _ h)
    · rw [revise_cons_of_gt greater, List.mem_cons] at h
      rcases h with rfl | h
      · exact .inl List.mem_cons_self
      · rcases ih h with inside | ⟨old, segment, place, rfl⟩
        · exact .inl (List.mem_cons_of_mem _ inside)
        · exact .inr ⟨old, segment, place.imp_left (List.mem_cons_of_mem _), rfl⟩

theorem ascending_revise (kept : ∀ package, (revision package).segment = package.segment)
    (named : fresh.segment = step) (ascending : Ascending packages) :
    Ascending (revise step revision fresh packages) := by
  induction packages with
  | nil => exact List.pairwise_singleton _ _
  | cons first rest ih =>
    obtain ⟨below, tail⟩ := List.pairwise_cons.mp ascending
    rcases lt_trichotomy step first.segment with less | same | greater
    · rw [revise_cons_of_lt less]
      apply List.pairwise_cons.mpr
      refine ⟨?_, ascending⟩
      intro package member
      rw [kept, named]
      rcases List.mem_cons.mp member with rfl | inside
      · exact less
      · exact lt_trans less (below package inside)
    · rw [revise_cons_of_eq same.symm]
      apply List.pairwise_cons.mpr
      refine ⟨?_, tail⟩
      intro package member
      rw [kept]
      exact below package member
    · rw [revise_cons_of_gt greater]
      apply List.pairwise_cons.mpr
      refine ⟨?_, ih tail⟩
      intro package member
      rcases mem_revise named member with inside | ⟨old, segment, _, rfl⟩
      · exact below package inside
      · rwa [kept, segment]

/-- Where siblings ascend, the one under a segment is the one that is found. -/
theorem find?_segment_eq_some_iff (ascending : Ascending packages) {package : Package} :
    packages.find? (·.segment = step) = some package ↔
      package ∈ packages ∧ package.segment = step := by
  constructor
  · intro found
    exact ⟨List.mem_of_find?_eq_some found, by simpa using List.find?_some found⟩
  · rintro ⟨inside, same⟩
    obtain ⟨other, found⟩ : ∃ other, packages.find? (·.segment = step) = some other := by
      apply Option.isSome_iff_exists.mp
      rw [List.find?_isSome]
      exact ⟨package, inside, decide_eq_true same⟩
    have inside' := List.mem_of_find?_eq_some found
    have same' : other.segment = step := by simpa using List.find?_some found
    have one : other = package := by
      by_contra different
      have apart : (packages.map segment).Nodup := by
        rw [List.Nodup, List.pairwise_map]
        exact ascending.imp fun less => ne_of_lt less
      exact different (List.inj_on_of_nodup_map apart inside' inside (same'.trans same.symm))
    rw [found, one]

/-- A revision is found under its segment; the other siblings are found as before. -/
theorem find?_revise (kept : ∀ package, (revision package).segment = package.segment)
    (named : fresh.segment = step) (ascending : Ascending packages) (other : String) :
    (revise step revision fresh packages).find? (·.segment = other) =
      if other = step then
        some (revision ((packages.find? (·.segment = step)).getD fresh))
      else packages.find? (·.segment = other) := by
  induction packages with
  | nil =>
    have own : (revision fresh).segment = step := (kept fresh).trans named
    by_cases same : other = step
    · simp [revise, own, same]
    · simp [revise, own, same, Ne.symm same]
  | cons first rest ih =>
    obtain ⟨below, tail⟩ := List.pairwise_cons.mp ascending
    rcases lt_trichotomy step first.segment with less | same | greater
    · have own : (revision fresh).segment = step := (kept fresh).trans named
      have missing : (first :: rest).find? (·.segment = step) = none := by
        rw [List.find?_eq_none]
        intro package member
        have above : step < package.segment := by
          rcases List.mem_cons.mp member with rfl | inside
          · exact less
          · exact lt_trans less (below package inside)
        simpa using ne_of_gt above
      rw [revise_cons_of_lt less, missing]
      by_cases same : other = step
      · simp [own, same]
      · simp [List.find?_cons, own, same, Ne.symm same]
    · have own : (revision first).segment = step := (kept first).trans same.symm
      rw [revise_cons_of_eq same.symm]
      by_cases equal : other = step
      · simp [own, same.symm, equal]
      · simp [own, same.symm, equal, Ne.symm equal]
    · rw [revise_cons_of_gt greater, List.find?_cons, ih tail]
      by_cases equal : other = step
      · have off : first.segment ≠ step := ne_of_lt greater
        simp [equal, off]
      · rw [if_neg equal, if_neg equal, List.find?_cons]

end Siblings

/-! ## Regular trees -/

/-- At every depth siblings and classes ascend, and a package is named after the one around it. -/
inductive Regular : Package → Prop
  | mk {segment fullName : String} {classes : List String} {subpackages : List Package}
      (siblings : Ascending subpackages)
      (named : ∀ child ∈ subpackages,
        child.fullName = (childOf fullName child.segment).fullName)
      (below : ∀ child ∈ subpackages, Regular child)
      (sorted : classes.Pairwise (· < ·)) :
      Regular (Package.mk segment fullName classes subpackages)

section Regular

variable {package : Package}

theorem Regular.siblings (regular : Regular package) : Ascending package.subpackages := by
  cases regular with
  | mk siblings => exact siblings

theorem Regular.sorted (regular : Regular package) : package.classes.Pairwise (· < ·) := by
  cases regular with
  | mk _ _ _ sorted => exact sorted

theorem Regular.child (regular : Regular package) {child : Package}
    (h : child ∈ package.subpackages) :
    Regular child ∧ child.fullName = (childOf package.fullName child.segment).fullName := by
  cases regular with
  | mk _ named below => exact ⟨below child h, named child h⟩

theorem regular_empty (segment fullName : String) : Regular (mk segment fullName [] []) :=
  .mk List.Pairwise.nil nofun nofun List.Pairwise.nil

theorem fullName_insertAt (path : List String) (name : String) (package : Package) :
    (package.insertAt path name).fullName = package.fullName := by
  obtain ⟨segment, fullName, classes, subpackages⟩ := package
  cases path <;> rfl

theorem Regular.insertAt (regular : Regular package) (path : List String) (name : String) :
    Regular (package.insertAt path name) := by
  induction path generalizing package with
  | nil =>
    obtain @⟨segment, fullName, classes, subpackages, siblings, named, below, sorted⟩ := regular
    exact .mk siblings named below (pairwise_insertAscending sorted)
  | cons step path ih =>
    obtain @⟨segment, fullName, classes, subpackages, siblings, named, below, sorted⟩ := regular
    have kept := segment_insertAt path name
    have fresh : (childOf fullName step).segment = step := rfl
    -- The package under the segment is one of the siblings, or a new one.
    have revised : ∀ child ∈ revise step (Package.insertAt path name) (childOf fullName step)
        subpackages, Regular child ∧
          child.fullName = (childOf fullName child.segment).fullName := by
      intro child member
      rcases mem_revise fresh member with inside | ⟨old, same, inside | rfl, rfl⟩
      · exact ⟨below child inside, named child inside⟩
      · refine ⟨ih (below old inside), ?_⟩
        rw [fullName_insertAt, kept]
        exact named old inside
      · refine ⟨ih (regular_empty _ _), ?_⟩
        rw [fullName_insertAt, kept]
        rfl
    exact .mk (ascending_revise kept fresh siblings) (fun child h => (revised child h).2)
      (fun child h => (revised child h).1) sorted

theorem regular_ofClasses (names : List String) : Regular (ofClasses names) := by
  induction names using List.reverseRecOn with
  | nil => exact regular_empty _ _
  | append_singleton names name ih =>
    rw [ofClasses, List.foldl_append]
    exact ih.insertAt _ _

end Regular

/-! ## Paths -/

/-- Going down from a package, into one of its subpackages at each step. -/
inductive Walk : Package → List String → Package → Prop
  | stay (start : Package) : Walk start [] start
  | down {start child last : Package} {steps : List String} (listed : child ∈ start.subpackages)
      (walk : Walk child steps last) : Walk start (child.segment :: steps) last

/-- The classes directly in the package at the end of a path. -/
def classesAt (package : Package) (steps : List String) : List String :=
  ((package.descend steps).map classes).getD []

section Paths

variable {package last : Package} {steps more : List String}

theorem descend_cons (package : Package) (step : String) (steps : List String) :
    package.descend (step :: steps) =
      (package.subpackages.find? (·.segment = step)).bind (·.descend steps) := by
  rw [descend]
  cases package.subpackages.find? (·.segment = step) <;> rfl

theorem descend_append (package : Package) (steps more : List String) :
    package.descend (steps ++ more) = (package.descend steps).bind (·.descend more) := by
  induction steps generalizing package with
  | nil => rfl
  | cons step steps ih =>
    rw [List.cons_append, descend_cons, descend_cons, Option.bind_assoc]
    exact congrArg _ (funext fun child => ih child)

/-- Looking segments up leads along the walks, since no two siblings share a segment. -/
theorem walk_iff (regular : Regular package) :
    Walk package steps last ↔ package.descend steps = some last := by
  constructor
  · intro walk
    induction walk with
    | stay => rfl
    | down listed _ ih =>
      have found := (find?_segment_eq_some_iff regular.siblings).mpr ⟨listed, rfl⟩
      rw [descend_cons, found, Option.bind_some]
      exact ih (regular.child listed).1
  · intro reached
    induction steps generalizing package with
    | nil =>
      rw [descend, Option.some_inj] at reached
      subst reached
      exact .stay _
    | cons step steps ih =>
      rw [descend_cons, Option.bind_eq_some_iff] at reached
      obtain ⟨child, found, reached⟩ := reached
      obtain ⟨listed, rfl⟩ := (find?_segment_eq_some_iff regular.siblings).mp found
      exact .down listed (ih (regular.child listed).1 reached)

theorem Walk.snoc {child : Package} (walk : Walk package steps last)
    (listed : child ∈ last.subpackages) : Walk package (steps ++ [child.segment]) child := by
  induction walk with
  | stay => exact .down listed (.stay child)
  | down inside _ ih => exact .down inside (ih listed)

theorem Regular.descend (regular : Regular package) (reached : package.descend steps = some last) :
    Regular last := by
  have walk := (walk_iff regular).mpr reached
  clear reached
  induction walk with
  | stay => exact regular
  | down listed _ ih => exact ih (regular.child listed).1

theorem classesAt_of_descend (reached : package.descend steps = some last) :
    package.classesAt steps = last.classes := by
  rw [classesAt, reached, Option.map_some, Option.getD_some]

theorem classesAt_append (reached : package.descend steps = some last) (more : List String) :
    package.classesAt (steps ++ more) = last.classesAt more := by
  rw [classesAt, descend_append, reached, Option.bind_some, classesAt]

theorem mem_classesAt {name : String} : name ∈ package.classesAt steps ↔
    ∃ last, package.descend steps = some last ∧ name ∈ last.classes := by
  rw [classesAt]
  cases package.descend steps <;> simp

/-- In a package that holds nothing, a path leads only to itself. -/
theorem isSome_descend_bare {segment fullName : String} :
    ((mk segment fullName [] []).descend steps).isSome ↔ steps = [] := by
  cases steps <;> simp [Package.descend, subpackages]

theorem classesAt_bare (segment fullName : String) (steps : List String) :
    (mk segment fullName [] []).classesAt steps = [] := by
  cases steps <;> simp [classesAt, Package.descend, subpackages, classes]

end Paths

/-! ## Insertions -/

section Insertions

variable {package : Package}

/-- Below another segment an insertion changes nothing, and below its own it goes on. -/
theorem descend_insertAt_cons (regular : Regular package) (step other : String)
    (path steps : List String) (name : String) :
    (package.insertAt (step :: path) name).descend (other :: steps) =
      if other = step then
        (((package.subpackages.find? (·.segment = step)).getD
          (childOf package.fullName step)).insertAt path name).descend steps
      else package.descend (other :: steps) := by
  obtain ⟨segment, fullName, classes, subpackages⟩ := package
  have fresh : (childOf fullName step).segment = step := rfl
  have found := find?_revise (segment_insertAt path name) fresh regular.siblings other
  rw [descend_cons, descend_cons, insertAt]
  simp only [Package.subpackages, Package.fullName] at found ⊢
  rw [found]
  split <;> rfl

/-- The package under a segment, or a new one, is regular. -/
theorem Regular.getD_find? (regular : Regular package) (step : String) :
    Regular ((package.subpackages.find? (·.segment = step)).getD
      (childOf package.fullName step)) := by
  cases found : package.subpackages.find? (·.segment = step) with
  | none => exact regular_empty _ _
  | some child => exact (regular.child (List.mem_of_find?_eq_some found)).1

/-- An insertion adds the packages on its path. -/
theorem isSome_descend_insertAt (regular : Regular package) (path steps : List String)
    (name : String) : ((package.insertAt path name).descend steps).isSome ↔
      (package.descend steps).isSome ∨ steps <+: path := by
  induction path generalizing package steps with
  | nil =>
    cases steps with
    | nil => simp [Package.descend]
    | cons step steps =>
      obtain ⟨segment, fullName, classes, subpackages⟩ := package
      simp [descend_cons, insertAt, Package.subpackages]
  | cons step path ih =>
    cases steps with
    | nil => simp [Package.descend]
    | cons other steps =>
      rw [descend_insertAt_cons regular, List.cons_prefix_cons]
      by_cases same : other = step
      · subst same
        rw [if_pos rfl, ih (regular.getD_find? other), descend_cons]
        cases package.subpackages.find? (·.segment = other) with
        | some child => simp
        | none =>
          rw [Option.getD_none, childOf, isSome_descend_bare]
          constructor
          · rintro (rfl | leads)
            · exact .inr ⟨rfl, List.nil_prefix⟩
            · exact .inr ⟨rfl, leads⟩
          · rintro (there | ⟨_, leads⟩)
            · cases there
            · exact .inr leads
      · rw [if_neg same]
        simp [same]

/-- An insertion adds one class at the end of its path. -/
theorem classesAt_insertAt (regular : Regular package) (path steps : List String) (name : String) :
    (package.insertAt path name).classesAt steps =
      if steps = path then insertAscending name (package.classesAt steps)
      else package.classesAt steps := by
  induction path generalizing package steps with
  | nil =>
    obtain ⟨segment, fullName, classes, subpackages⟩ := package
    cases steps with
    | nil => rfl
    | cons step steps => simp [classesAt, descend_cons, insertAt, Package.subpackages]
  | cons step path ih =>
    cases steps with
    | nil =>
      obtain ⟨segment, fullName, classes, subpackages⟩ := package
      rfl
    | cons other steps =>
      by_cases same : other = step
      · subst same
        have below := ih (regular.getD_find? other) steps
        have own : ((package.subpackages.find? (·.segment = other)).getD
            (childOf package.fullName other)).classesAt steps =
              package.classesAt (other :: steps) := by
          rw [classesAt, classesAt, descend_cons]
          cases package.subpackages.find? (·.segment = other) with
          | some child => rfl
          | none => exact classesAt_bare _ _ steps
        rw [classesAt, descend_insertAt_cons regular, if_pos rfl, ← classesAt, below, own]
        simp
      · have apart : other :: steps ≠ step :: path := fun h => same (List.cons.inj h).1
        rw [classesAt, descend_insertAt_cons regular, if_neg same, if_neg apart, ← classesAt]

/-- A class that is put in its place a second time stays there once. -/
theorem insertAt_idem (path : List String) (name : String) (package : Package) :
    (package.insertAt path name).insertAt path name = package.insertAt path name := by
  induction path generalizing package with
  | nil =>
    obtain ⟨segment, fullName, classes, subpackages⟩ := package
    simp only [insertAt, insertAscending_idem]
  | cons step path ih =>
    obtain ⟨segment, fullName, classes, subpackages⟩ := package
    have named : (childOf fullName step).segment = step := rfl
    simp only [insertAt, mk.injEq, true_and]
    rw [revise_revise (segment_insertAt path name) named]
    congr 1
    funext child
    exact ih child

end Insertions

/-! ## The tree of some classes -/

theorem ofClasses_append_singleton (names : List String) (name : String) :
    ofClasses (names ++ [name]) = (ofClasses names).insert name := by
  rw [ofClasses, List.foldl_append]
  rfl

/-- The path of the package that a class is in. -/
def pathOf (name : String) : List String := path (ClassName.package name)

/-- The packages are those on the way to a class. -/
theorem isSome_descend_ofClasses {names steps : List String} :
    ((ofClasses names).descend steps).isSome ↔
      steps = [] ∨ ∃ name ∈ names, steps <+: pathOf name := by
  induction names using List.reverseRecOn with
  | nil =>
    rw [ofClasses, List.foldl_nil, empty, isSome_descend_bare]
    simp
  | append_singleton names name ih =>
    rw [ofClasses_append_singleton, insert, isSome_descend_insertAt (regular_ofClasses names), ih,
      ← pathOf]
    simp only [List.mem_append, List.mem_singleton, or_and_right, exists_or, exists_eq_left,
      or_assoc]

/-- The classes directly in a package are those whose path leads to it. -/
theorem mem_classesAt_ofClasses {names steps : List String} {name : String} :
    name ∈ (ofClasses names).classesAt steps ↔ name ∈ names ∧ pathOf name = steps := by
  induction names using List.reverseRecOn with
  | nil =>
    rw [ofClasses, List.foldl_nil, empty, classesAt_bare]
    simp
  | append_singleton names last ih =>
    rw [ofClasses_append_singleton, insert, classesAt_insertAt (regular_ofClasses names), ← pathOf]
    split
    next here =>
      rw [mem_insertAscending, ih, List.mem_append, List.mem_singleton]
      constructor
      · rintro (rfl | ⟨inside, leads⟩)
        · exact ⟨.inr rfl, here.symm⟩
        · exact ⟨.inl inside, leads⟩
      · rintro ⟨inside | rfl, leads⟩
        · exact .inr ⟨inside, leads⟩
        · exact .inl rfl
    next elsewhere =>
      rw [ih, List.mem_append, List.mem_singleton]
      constructor
      · rintro ⟨inside, leads⟩
        exact ⟨.inl inside, leads⟩
      · rintro ⟨inside | rfl, leads⟩
        · exact ⟨inside, leads⟩
        · exact absurd leads.symm elsewhere

/-- Classes that are in the tree already add nothing. -/
theorem ofClasses_append_of_subset {names others : List String} (h : others ⊆ names) :
    ofClasses (names ++ others) = ofClasses names := by
  induction others using List.reverseRecOn with
  | nil => rw [List.append_nil]
  | append_singleton others name ih =>
    have inside : name ∈ names ++ others :=
      List.mem_append_left _ (h (List.mem_append_right _ List.mem_cons_self))
    have last : (names ++ others).Perm ((names ++ others).erase name ++ [name]) :=
      (List.perm_cons_erase inside).trans (List.perm_append_singleton _ _).symm
    rw [← List.append_assoc, ofClasses_append_singleton, ← ih fun _ member =>
      h (List.mem_append_left _ member), ofClasses_perm last, ofClasses_append_singleton]
    exact insertAt_idem _ name _

/-- Neither the order of the classes nor their repetition makes a difference. -/
theorem ofClasses_congr {names others : List String} (h : ∀ name, name ∈ names ↔ name ∈ others) :
    ofClasses names = ofClasses others := by
  calc ofClasses names = ofClasses (names ++ others) :=
        (ofClasses_append_of_subset fun name => (h name).mpr).symm
    _ = ofClasses (others ++ names) := ofClasses_perm List.perm_append_comm
    _ = ofClasses others := ofClasses_append_of_subset fun name => (h name).mp

end Package

end ClassAtlas
