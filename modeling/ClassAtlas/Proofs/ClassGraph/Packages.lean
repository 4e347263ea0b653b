import ClassAtlas.Proofs.ClassGraph.Resolution
import ClassAtlas.Proofs.Package.Containment
import Mathlib.Data.List.TakeWhile

/-!
# How far names locate packages

A package stands at the end of a path, and its full name, its parent and the look-up of its classes
are worked out from names. An empty segment leaves no trace at the front of a full name and a simple
name no trace if it is empty. `ofStaged_namesLocate`: in every built graph, names locate a package
exactly if its path does not start with an empty segment, and a class exactly if its name has no dot
at either end.
-/

namespace ClassAtlas

namespace Package

variable {names steps : List String} {package : Package} {name : String}

/-! ## Packages and their full names -/

theorem dropWhile_eq_self_iff {steps : List String} :
    steps.dropWhile (· = "") = steps ↔ steps.head? ≠ some "" := by
  cases steps with
  | nil => simp
  | cons step steps =>
    by_cases empty : step = ""
    · subst empty
      have shorter := (List.dropWhile_suffix (l := steps) (· = "")).length_le
      rw [List.dropWhile_cons_of_pos (by simp)]
      constructor
      · intro same
        rw [same, List.length_cons] at shorter
        omega
      · intro apart
        exact absurd rfl apart
    · rw [List.dropWhile_cons_of_neg (by simpa using empty)]
      simp [empty]

/-- What is as long without its empty segments in front has none in front. -/
theorem head?_ne_of_length_le {steps : List String}
    (h : steps.length ≤ (steps.dropWhile (· = "")).length) : steps.head? ≠ some "" := by
  rw [← dropWhile_eq_self_iff]
  exact (List.dropWhile_suffix (l := steps) _).eq_of_length_le h

theorem head?_dropWhile (steps : List String) :
    (steps.dropWhile (· = "")).head? ≠ some "" := by
  induction steps with
  | nil => simp
  | cons step steps ih =>
    by_cases empty : step = ""
    · rwa [List.dropWhile_cons_of_pos (by simpa using empty)]
    · rw [List.dropWhile_cons_of_neg (by simpa using empty)]
      simpa using empty

theorem find?_fullName_iff (reached : (ofClasses names).descend steps = some package) :
    (ofClasses names).find? package.fullName = some package ↔ steps.head? ≠ some "" := by
  rw [find?, path_fullName reached, ← dropWhile_eq_self_iff]
  constructor
  · intro reached'
    exact descend_injective reached' reached
  · intro same
    rwa [same]

theorem isRoot_iff (reached : (ofClasses names).descend steps = some package) :
    package.isRoot = true ↔ ∀ step ∈ steps, step = "" := by
  have named : package.isRoot = true ↔ path package.fullName = [] := by
    rw [path_eq_nil_iff, isRoot]
    simp
  rw [named, path_fullName reached, List.dropWhile_eq_nil_iff]
  simp

/-- The name of the package around leads to what is left without the last segment. -/
theorem parentName?_bind_find? (reached : (ofClasses names).descend steps = some package) :
    package.parentName?.bind (ofClasses names).find? =
      if package.isRoot then none
      else (ofClasses names).descend (steps.dropWhile (· = "")).dropLast := by
  rw [parentName?]
  split
  · rfl
  · have headed : (path package.fullName).head? ≠ some "" := by
      rw [path_fullName reached]
      exact head?_dropWhile steps
    rw [Option.bind_some, find?, path_package headed, path_fullName reached]

/-- Its name leads to the package around exactly if the path does not start with an empty
segment. -/
theorem parent_eq_some_iff {around : Package} {step : String}
    (reached : (ofClasses names).descend (steps ++ [step]) = some package)
    (reached' : (ofClasses names).descend steps = some around) :
    package.parentName?.bind (ofClasses names).find? = some around ↔
      (steps ++ [step]).head? ≠ some "" := by
  rw [parentName?_bind_find? reached]
  constructor
  · intro h
    split at h
    next => cases h
    next rooted =>
      have same := descend_injective h reached'
      -- The path has lost nothing: its last segment is off, and so many are left.
      have left : (steps ++ [step]).dropWhile (· = "") ≠ [] := by
        intro empty
        rw [isRoot_iff reached] at rooted
        rw [List.dropWhile_eq_nil_iff] at empty
        exact rooted fun step member => by simpa using empty step member
      have positive := List.length_pos_iff.mpr left
      have lengths := congrArg List.length same
      rw [List.length_dropLast] at lengths
      apply head?_ne_of_length_le
      rw [List.length_append, List.length_singleton]
      omega
  · intro headed
    have same := dropWhile_eq_self_iff.mpr headed
    have rooted : package.isRoot ≠ true := by
      intro root
      have empty : (steps ++ [step]).dropWhile (· = "") = [] := by
        rw [List.dropWhile_eq_nil_iff]
        simpa using (isRoot_iff reached).mp root
      rw [empty] at same
      exact List.append_ne_nil_of_right_ne_nil _ (List.cons_ne_nil _ _) same.symm
    rw [if_neg rooted, same, List.dropLast_concat, reached']

/-! ## Classes and their names -/

theorem fullName_eq_package_iff (reached : (ofClasses names).descend steps = some package)
    (leads : pathOf name = steps) :
    package.fullName = ClassName.package name ↔ steps.head? ≠ some "" := by
  rw [← path_injective.eq_iff, path_fullName reached, ← pathOf, leads, dropWhile_eq_self_iff]

/-- A name starts with an empty segment when it starts with a dot. -/
theorem head?_path {name : String} (h : name ≠ "") :
    (path name).head? = some "" ↔ name.toList.head? = some '.' := by
  rw [path_eq h]
  cases text : name.toList with
  | nil => exact absurd (String.toList_injective text) h
  | cons c rest =>
    rw [List.splitOn_cons_eq_if_modifyHead]
    by_cases dot : c = '.'
    · simp [dot]
    · cases parts : rest.splitOn '.' with
      | nil => exact absurd parts (List.splitOn_ne_nil '.' rest)
      | cons first others => simp [dot, ← String.toList_inj]

theorem pathOf_of_not_mem (plain : '.' ∉ name.toList) : pathOf name = [] := by
  rcases parts_of_name name with ⟨_, outside, _⟩ | ⟨whole, _⟩
  · rw [pathOf, outside, path_empty]
  · refine absurd ?_ plain
    rw [whole]
    simp

/-- A simple part that is not empty is a single segment. -/
theorem length_path_of_not_mem (plain : '.' ∉ name.toList) :
    (path name).length = if name = "" then 0 else 1 := by
  by_cases empty : name = ""
  · simp [empty]
  · rw [path_of_not_mem empty plain, if_neg empty]
    rfl

theorem containsClass_iff (reached : (ofClasses names).descend steps = some package) :
    package.containsClass name = true ↔ name ∈ names ∧ pathOf name = steps := by
  rw [containsClass, List.contains_iff_mem, mem_classes_of_descend reached]

/-- What a package takes for the class `back` in it does not start with an empty segment. -/
theorem head?_path_joinNames {back : String} (plain : '.' ∉ back.toList)
    (reached : (ofClasses names).descend steps = some package) :
    (path (joinNames package.fullName back)).head? ≠ some "" := by
  have left := head?_dropWhile steps
  rw [path_joinNames, path_fullName reached, List.head?_append]
  cases head : (steps.dropWhile (· = "")).head? with
  | some step =>
    rw [head] at left
    exact left
  | none =>
    by_cases empty : back = ""
    · simp [empty]
    · simp [path_of_not_mem empty plain, empty]

/-- It is such a class exactly if nothing was lost: no empty segment at the front of the path, and
no empty simple name. -/
theorem pathOf_joinNames_iff {front back : String} (nonempty : front ≠ "")
    (plain : '.' ∉ back.toList) (reached : (ofClasses names).descend (path front) = some package) :
    pathOf (joinNames package.fullName back) = path front ↔
      (path front).head? ≠ some "" ∧ back ≠ "" := by
  have below := path_package (head?_path_joinNames plain reached)
  rw [← pathOf, path_joinNames, path_fullName reached] at below
  have shorter := (List.dropWhile_suffix (l := path front) (· = "")).length_le
  have positive : 0 < (path front).length :=
    List.length_pos_iff.mpr fun empty => nonempty (path_eq_nil_iff.mp empty)
  constructor
  · intro same
    rw [same] at below
    have lengths := congrArg List.length below
    rw [List.length_dropLast, List.length_append, length_path_of_not_mem plain] at lengths
    split at lengths
    next => omega
    next last =>
      exact ⟨head?_ne_of_length_le (by omega), last⟩
  · rintro ⟨first, last⟩
    rw [below, dropWhile_eq_self_iff.mpr first, path_of_not_mem last plain, List.dropLast_concat]

/-- The root looks for a simple name as it stands. -/
theorem containsClass_joinNames_root {back : String} (plain : '.' ∉ back.toList)
    (reached : (ofClasses names).descend [] = some package) :
    package.containsClass (joinNames package.fullName back) = true ↔ back ∈ names := by
  have full : package.fullName = "" := by
    rw [← path_eq_nil_iff, path_fullName reached]
    rfl
  have joined : joinNames package.fullName back = back := by
    rw [full]
    rfl
  rw [joined, containsClass_iff reached, pathOf_of_not_mem plain]
  simp

theorem containsClass_joinNames_iff {front back : String} (nonempty : front ≠ "")
    (plain : '.' ∉ back.toList) (reached : (ofClasses names).descend (path front) = some package)
    (inside : front ++ "." ++ back ∈ names) :
    package.containsClass (joinNames package.fullName back) = true ↔
      (path front).head? ≠ some "" ∧ back ≠ "" := by
  rw [containsClass_iff reached, pathOf_joinNames_iff nonempty plain reached, and_iff_right_iff_imp]
  rintro ⟨first, last⟩
  have same : joinNames package.fullName back = front ++ "." ++ back := by
    apply path_injective
    rw [path_joinNames, path_fullName reached, dropWhile_eq_self_iff.mpr first, path_append_dot,
      path_of_not_mem last plain, List.splitOn_eq_singleton plain, path_eq nonempty]
    simp
  rwa [same]

/-- Neither end of the name is a dot. -/
def EndsPlain (name : String) : Prop :=
  name.toList.head? ≠ some '.' ∧ name.toList.getLast? ≠ some '.'

theorem endsPlain_of_not_mem (plain : '.' ∉ name.toList) : EndsPlain name :=
  ⟨fun first => plain (List.mem_of_mem_head? first),
    fun last => plain (List.mem_of_getLast? last)⟩

theorem endsPlain_iff {front back : String} (nonempty : front ≠ "") (plain : '.' ∉ back.toList) :
    EndsPlain (front ++ "." ++ back) ↔ (path front).head? ≠ some "" ∧ back ≠ "" := by
  have text : (front ++ "." ++ back).toList = front.toList ++ '.' :: back.toList := by simp
  have first : (front ++ "." ++ back).toList.head? = front.toList.head? := by
    rw [text, List.head?_append_of_ne_nil]
    exact fun empty => nonempty (String.toList_injective empty)
  have last : (front ++ "." ++ back).toList.getLast? = some '.' ↔ back = "" := by
    by_cases unnamed : back = ""
    · simp [unnamed]
    · have rest : back.toList ≠ [] := fun empty => unnamed (String.toList_injective empty)
      rw [text, List.getLast?_append_of_ne_nil _ (List.cons_ne_nil _ _),
        List.getLast?_cons_of_ne_nil rest]
      exact iff_of_false (fun last => plain (List.mem_of_getLast? last)) unnamed
  simp only [EndsPlain, first, ne_eq, last, head?_path nonempty]

/-- A class is found in its package by its simple name exactly if its name has no dot at either
end; only the root can take another class for it. -/
theorem containsClass_simplePart_iff (reached : (ofClasses names).descend steps = some package)
    (inside : name ∈ names) (leads : pathOf name = steps) :
    package.containsClass (joinNames package.fullName (ClassName.simplePart name)) = true ↔
      EndsPlain name ∨ (steps = [] ∧ ClassName.simplePart name ∈ names) := by
  subst leads
  rcases parts_of_name name with ⟨plain, outside, whole⟩ | ⟨whole, plain⟩
  · have start := pathOf_of_not_mem plain
    rw [start] at reached ⊢
    rw [whole, containsClass_joinNames_root plain reached]
    exact iff_of_true inside (.inl (endsPlain_of_not_mem plain))
  · rw [pathOf] at reached ⊢
    generalize ClassName.package name = front at whole reached ⊢
    generalize ClassName.simplePart name = back at whole plain ⊢
    subst whole
    by_cases outside : front = ""
    · subst outside
      have dotted : ¬ EndsPlain ("" ++ "." ++ back) := fun ends => ends.1 (by simp)
      rw [path_empty] at reached ⊢
      rw [containsClass_joinNames_root plain reached, or_iff_right dotted]
      simp
    · have nonempty : path front ≠ [] := fun empty => outside (path_eq_nil_iff.mp empty)
      rw [containsClass_joinNames_iff outside plain reached inside, endsPlain_iff outside plain]
      simp [nonempty]

end Package

/-! ## Graphs -/

namespace ClassGraph

open Package Wiring

section Wired

variable {staged : List SourcedClass} {graph : ClassGraph} {package : Package}

/-- The names of the imported classes, as the package tree is built from them. -/
def importedNames (graph : ClassGraph) : List String :=
  (graph.nodes.items.toList.filter Node.isResolved).map Node.name

theorem get?_eq_some_iff (wired : Wired staged (pairsOf staged) graph.toWiring) {name : String}
    {node : Node} : graph.get? name = some node ↔
      node ∈ graph.nodes.items ∧ node.name = name ∧ node.isResolved = true := by
  rw [get?, Option.filter_eq_some_iff, lookup, wired.indexed.find?_eq_some_iff, and_assoc]

theorem contains_eq_true_iff (wired : Wired staged (pairsOf staged) graph.toWiring)
    {name : String} : graph.contains name = true ↔ name ∈ graph.importedNames := by
  simp only [contains, Option.isSome_iff_exists, get?_eq_some_iff wired, importedNames,
    List.mem_map, List.mem_filter, Array.mem_toList_iff]
  constructor
  · rintro ⟨node, inside, named, resolved⟩
    exact ⟨node, ⟨inside, resolved⟩, named⟩
  · rintro ⟨node, ⟨inside, resolved⟩, named⟩
    exact ⟨node, inside, named, resolved⟩

theorem mem_classes_of_mem_classesIn (wired : Wired staged (pairsOf staged) graph.toWiring)
    {node : Node} (h : node ∈ graph.classesIn package) : node.name ∈ package.classes := by
  obtain ⟨name, held, found⟩ := List.mem_filterMap.mp h
  rwa [((get?_eq_some_iff wired).mp found).2.1]

theorem package_eq_ok_iff {name : String} :
    graph.package name = .ok package ↔ graph.root.find? name = some package := by
  rw [ClassGraph.package, packageBelow]
  cases graph.root.find? name <;> simp [orError]

end Wired

/-- How far names locate the packages of a graph and the classes in them. -/
structure NamesLocate (graph : ClassGraph) : Prop where
  /-- A package is found by its full name exactly if its path does not start with an empty
  segment. -/
  found : ∀ steps package, Walk graph.root steps package →
    (graph.package package.fullName = .ok package ↔ steps.head? ≠ some "")
  /-- So is the package around it as its parent. -/
  parent : ∀ steps around package, Walk graph.root steps around → package ∈ around.subpackages →
    (graph.parent? package = some around ↔ (steps ++ [package.segment]).head? ≠ some "")
  rootParent : graph.parent? graph.root = none
  /-- What counts as the root is every package on a path of empty segments. -/
  isRoot : ∀ steps package, Walk graph.root steps package →
    (package.isRoot = true ↔ ∀ step ∈ steps, step = "")
  /-- The classes in a package are named after it exactly if the path does not start with an empty
  segment. -/
  named : ∀ steps package, Walk graph.root steps package → ∀ node ∈ graph.classesIn package,
    (package.fullName = node.packageName ↔ steps.head? ≠ some "")
  /-- They are found in it by their simple names exactly if their names have no dot at either end;
  only the root can take another class for one of them. -/
  held : ∀ steps package, Walk graph.root steps package → ∀ node ∈ graph.classesIn package,
    (hasClass package (ClassName.simplePart node.name) = true ↔ EndsPlain node.name ∨
      (steps = [] ∧ graph.contains (ClassName.simplePart node.name) = true))

/-- Names locate packages and classes as long as no empty segment gets lost in them. -/
theorem ofStaged_namesLocate (items : List SourcedClass) (report : Report) :
    (ClassGraph.ofStaged (Staging.stageAll {} items).1 report).NamesLocate := by
  have wired := wired_stageAll items report
  have root : (ClassGraph.ofStaged (Staging.stageAll {} items).1 report).root =
      ofClasses (ClassGraph.ofStaged (Staging.stageAll {} items).1 report).importedNames := rfl
  generalize ClassGraph.ofStaged (Staging.stageAll {} items).1 report = graph at wired root
  have regular := regular_ofClasses graph.importedNames
  have reaches : ∀ steps package, Walk graph.root steps package →
      (ofClasses graph.importedNames).descend steps = some package := by
    intro steps package walk
    rw [root] at walk
    exact (walk_iff regular).mp walk
  have lists : ∀ steps package, Walk graph.root steps package → ∀ node ∈ graph.classesIn package,
      node.name ∈ graph.importedNames ∧ pathOf node.name = steps := by
    intro steps package walk node inside
    exact (mem_classes_of_descend (reaches steps package walk)).mp
      (mem_classes_of_mem_classesIn wired inside)
  exact
    { found := by
        intro steps package walk
        rw [package_eq_ok_iff, root]
        exact find?_fullName_iff (reaches steps package walk)
      parent := by
        intro steps around package walk listed
        have below : Walk graph.root (steps ++ [package.segment]) package := walk.snoc listed
        rw [parent?, root]
        exact parent_eq_some_iff (reaches _ _ below) (reaches _ _ walk)
      rootParent := by
        have here : (ofClasses graph.importedNames).descend [] = some graph.root := by
          rw [root]
          rfl
        have told := parentName?_bind_find? here
        rw [if_pos ((isRoot_iff here).mpr nofun), ← root] at told
        exact told
      isRoot := fun steps package walk => isRoot_iff (reaches steps package walk)
      named := by
        intro steps package walk node inside
        exact fullName_eq_package_iff (reaches steps package walk)
          (lists steps package walk node inside).2
      held := by
        intro steps package walk node inside
        obtain ⟨imported, leads⟩ := lists steps package walk node inside
        rw [contains_eq_true_iff wired]
        exact containsClass_simplePart_iff (reaches steps package walk) imported leads }

/-- A class whose internal name starts with a slash. -/
def leadingDot : SourcedClass :=
  { decl := { (default : ClassDecl) with name := ".x.A" }, source := none }

/-- Its package, and the one around that, which has no name. -/
def packageOfLeadingDot : Package := .mk "x" "x" [".x.A"] []

def namelessPackage : Package := .mk "" "" [] [packageOfLeadingDot]

/-- No name leads to either of them: the nameless one counts as the root, and the root is told to be
the parent of the other. -/
theorem ofStaged_namesLocate_leadingDot :
    let graph := ClassGraph.ofStaged (Staging.stageAll {} [leadingDot]).1 {}
    Walk graph.root [""] namelessPackage ∧
      packageOfLeadingDot ∈ namelessPackage.subpackages ∧
      .imported leadingDot ∈ graph.classesIn packageOfLeadingDot ∧
      graph.package packageOfLeadingDot.fullName ≠ .ok packageOfLeadingDot ∧
      graph.parent? packageOfLeadingDot ≠ some namelessPackage ∧
      namelessPackage.isRoot = true ∧
      packageOfLeadingDot.fullName ≠ ClassName.package leadingDot.name ∧
      hasClass packageOfLeadingDot "A" ≠ true := by
  intro graph
  have located := ofStaged_namesLocate [leadingDot] {}
  have listed : namelessPackage ∈ graph.root.subpackages := List.mem_cons_self
  have outer : Walk graph.root [""] namelessPackage := .down listed (.stay _)
  have below : packageOfLeadingDot ∈ namelessPackage.subpackages := List.mem_cons_self
  have inner : Walk graph.root ["", "x"] packageOfLeadingDot := outer.snoc below
  have inside : .imported leadingDot ∈ graph.classesIn packageOfLeadingDot := List.mem_cons_self
  refine ⟨outer, below, inside, ?_, ?_, ?_, ?_, ?_⟩
  · exact fun found => (located.found _ _ inner).mp found rfl
  · exact fun told => (located.parent _ _ _ outer below).mp told rfl
  · exact (located.isRoot _ _ outer).mpr fun _ member => List.mem_singleton.mp member
  · exact fun named => (located.named _ _ inner _ inside).mp named rfl
  · intro held
    rcases (located.held _ _ inner _ inside).mp held with ends | ⟨start, _⟩
    · exact ends.1 rfl
    · cases start

end ClassGraph

end ClassAtlas
