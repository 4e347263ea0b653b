import ClassAtlas.Proofs.ClassGraph.Dependencies
import ClassAtlas.Proofs.Package.Insertion

/-!
# The order in which classes are staged

Places of nodes, stubs and edges depend on the order in which classes come. No view shows them:
`ofStaged_sameViews` says that graphs of the same classes have the same views, if of each name the
same class came first.
-/

namespace ClassAtlas.ClassGraph

open Roster Wiring

/-- Two graphs that nobody can tell apart by their classes, dependencies and packages. -/
structure SameViews (graph other : ClassGraph) : Prop where
  classes : graph.classes = other.classes
  externalClasses : graph.externalClasses = other.externalClasses
  /-- A name denotes the same class from the same source, or a stub in both. -/
  lookup : ∀ name, graph.lookup name = other.lookup name
  contains : ∀ name, graph.contains name = other.contains name
  superclass : ∀ node, graph.superclass? node = other.superclass? node
  interfaces : ∀ node, graph.interfaces node = other.interfaces node
  enclosingClass : ∀ node, graph.enclosingClass? node = other.enclosingClass? node
  dependenciesFrom : ∀ name, graph.dependenciesFrom name = other.dependenciesFrom name
  dependents : ∀ node, graph.dependents node = other.dependents node
  subclasses : ∀ node, graph.subclasses node = other.subclasses node
  implementations : ∀ node, graph.implementations node = other.implementations node
  dependencyCount : graph.dependencyCount = other.dependencyCount
  root : graph.root = other.root

/-- A list that is sorted by keys depends on its members alone, if their keys tell them apart. -/
theorem mergeSort_leKey_eq (key : Dependency → String × DependencyKind)
    {first second : List Dependency} (perm : first.Perm second)
    (apart : ∀ a ∈ first, ∀ b ∈ second, key a = key b → a = b) :
    first.mergeSort (fun a b => leKey (key a) (key b)) =
      second.mergeSort fun a b => leKey (key a) (key b) := by
  have sorted : ∀ items : List Dependency,
      (items.mergeSort fun a b => leKey (key a) (key b)).Pairwise fun a b =>
        leKey (key a) (key b) = true :=
    List.pairwise_mergeSort (fun _ _ _ => leKey_trans) fun _ _ => leKey_total _ _
  refine List.Perm.eq_of_pairwise (fun a b ha hb hab hba => ?_) (sorted first) (sorted second) ?_
  · exact apart a (List.mem_mergeSort.mp ha) b (List.mem_mergeSort.mp hb)
      (leKey_antisymm hab hba)
  · exact ((List.mergeSort_perm first _).trans perm).trans (List.mergeSort_perm second _).symm

/-! ## Graphs with the same nodes -/

section SameNodes

variable {staged staged' : List SourcedClass} {graph other : ClassGraph}
  (wired : Wired staged (pairsOf staged) graph.toWiring)
  (wired' : Wired staged' (pairsOf staged') other.toWiring)
  (same : ∀ node, node ∈ graph.nodes.items ↔ node ∈ other.nodes.items)

include same in
theorem refers_congr {dependency : Dependency} :
    graph.Refers dependency ↔ other.Refers dependency :=
  exists_congr fun item => and_congr_left fun _ => same (.imported item)

include same in
/-- Chosen edges are the same dependencies if the choices mean the same. -/
theorem perm_dependencies (chosen : Dependency → Prop) {first second : List Dependency}
    (nodup : first.Nodup) (nodup' : second.Nodup)
    (mem : ∀ dependency, dependency ∈ first ↔ chosen dependency ∧ graph.Refers dependency)
    (mem' : ∀ dependency, dependency ∈ second ↔ chosen dependency ∧ other.Refers dependency) :
    first.Perm second := by
  rw [List.perm_ext_iff_of_nodup nodup nodup']
  intro dependency
  rw [mem, mem', refers_congr same]

include same in
/-- Sorted by keys they are the same list if the keys tell the chosen ones apart. -/
theorem sorted_dependencies_eq (chosen : Dependency → Prop)
    (key : Dependency → String × DependencyKind)
    (apart : ∀ a b, chosen a → chosen b → key a = key b → a = b) {first second : List Dependency}
    (nodup : first.Nodup) (nodup' : second.Nodup)
    (mem : ∀ dependency, dependency ∈ first ↔ chosen dependency ∧ graph.Refers dependency)
    (mem' : ∀ dependency, dependency ∈ second ↔ chosen dependency ∧ other.Refers dependency) :
    (first.mergeSort fun a b => leKey (key a) (key b)) =
      second.mergeSort fun a b => leKey (key a) (key b) :=
  mergeSort_leKey_eq key (perm_dependencies same chosen nodup nodup' mem mem')
    fun a ha b hb => apart a b ((mem a).mp ha).1 ((mem' b).mp hb).1

include wired in
/-- Every edge joins two names. -/
theorem length_dependenciesWhere_all :
    (graph.dependenciesWhere fun _ => true).length = graph.dependencyCount := by
  rw [dependenciesWhere, List.filter_true, dependencyCount, ← Array.length_toList,
    List.filterMap_length_eq_length]
  intro edge inside
  obtain ⟨item, node, there, there', _⟩ :=
    wired.mem_edges_iff.mp (Array.mem_toList_iff.mp inside)
  rw [dependency?_eq_some_iff.mpr ⟨_, _, there, there', rfl⟩]
  rfl

include wired wired' same

theorem perm_nodes : graph.nodes.items.toList.Perm other.nodes.items.toList := by
  rw [List.perm_ext_iff_of_nodup wired.indexed.nodup_names.of_map
    wired'.indexed.nodup_names.of_map]
  simpa using same

theorem sortedNodes_eq (resolved : Bool) :
    graph.sortedNodes resolved = other.sortedNodes resolved := by
  have strict := sortedNodes_strict wired.indexed.nodup_names resolved
  have strict' := sortedNodes_strict wired'.indexed.nodup_names resolved
  rw [List.pairwise_map] at strict strict'
  refine List.Perm.eq_of_pairwise (fun _ _ _ _ less greater => absurd less (lt_asymm greater))
    strict strict' ?_
  exact ((graph.sortedNodes_perm resolved).trans
    ((perm_nodes wired wired' same).filter _)).trans (other.sortedNodes_perm resolved).symm

theorem lookup_eq : graph.lookup = other.lookup := by
  funext name
  apply Option.ext
  intro node
  rw [lookup, lookup, wired.indexed.find?_eq_some_iff, wired'.indexed.find?_eq_some_iff, same]

theorem dependenciesFrom_eq (name : String) :
    graph.dependenciesFrom name = other.dependenciesFrom name := by
  refine sorted_dependencies_eq same (·.origin = name) (fun d => (d.target, d.kind)) ?_
    (nodup_dependenciesWhere wired _) (nodup_dependenciesWhere wired' _)
    (fun _ => mem_dependenciesWhere_origin wired) fun _ => mem_dependenciesWhere_origin wired'
  rintro ⟨origin, target, kind⟩ ⟨origin', target', kind'⟩ starts starts' keys
  cases keys
  cases starts.trans starts'.symm
  rfl

theorem dependents_eq (node : Node) : graph.dependents node = other.dependents node := by
  rw [dependents, dependents, filter_dependenciesWhere_target wired,
    filter_dependenciesWhere_target wired']
  split
  next =>
    refine sorted_dependencies_eq same (·.target = node.name) (fun d => (d.origin, d.kind)) ?_
      (nodup_dependenciesWhere wired _) (nodup_dependenciesWhere wired' _)
      (fun _ => mem_dependenciesWhere_target wired) fun _ => mem_dependenciesWhere_target wired'
    rintro ⟨origin, target, kind⟩ ⟨origin', target', kind'⟩ ends ends' keys
    cases keys
    cases ends.trans ends'.symm
    rfl
  next => rfl

theorem dependencyCount_eq : graph.dependencyCount = other.dependencyCount := by
  rw [← length_dependenciesWhere_all wired, ← length_dependenciesWhere_all wired']
  refine (perm_dependencies same (fun _ => True) (nodup_dependenciesWhere wired _)
    (nodup_dependenciesWhere wired' _) ?_ ?_).length_eq
  · exact fun _ => mem_dependenciesWhere_iff wired fun _ _ => iff_of_true rfl trivial
  · exact fun _ => mem_dependenciesWhere_iff wired' fun _ _ => iff_of_true rfl trivial

/-- Graphs with the same nodes and package trees have the same views. -/
theorem sameViews_of_nodes (root : graph.root = other.root) : SameViews graph other := by
  have found := lookup_eq wired wired' same
  have backwards := dependents_eq wired wired' same
  exact
    { classes := sortedNodes_eq wired wired' same true
      externalClasses := sortedNodes_eq wired wired' same false
      lookup := congrFun found
      contains := fun name => by rw [contains, contains, get?, get?, found]
      superclass := fun node => by rw [superclass?, superclass?, found]
      interfaces := fun node => by rw [interfaces, interfaces, found]
      enclosingClass := fun node => by rw [enclosingClass?, enclosingClass?, found]
      dependenciesFrom := dependenciesFrom_eq wired wired' same
      dependents := backwards
      subclasses := fun node => by
        rw [subclasses, subclasses, dependentsOfKind, dependentsOfKind, backwards]
      implementations := fun node => by
        rw [implementations, implementations, dependentsOfKind, dependentsOfKind, backwards]
      dependencyCount := dependencyCount_eq wired wired' same
      root }

end SameNodes

/-! ## Sequences with the same first classes -/

section Sequences

variable {items others : List SourcedClass}

theorem mem_nodes_congr
    (firsts : ∀ name, items.find? (·.name = name) = others.find? (·.name = name))
    (report report' : Report) (node : Node) :
    node ∈ (ClassGraph.ofStaged (Staging.stageAll {} items).1 report).nodes.items ↔
      node ∈ (ClassGraph.ofStaged (Staging.stageAll {} others).1 report').nodes.items := by
  have imported : ∀ item,
      Node.imported item ∈
          (ClassGraph.ofStaged (Staging.stageAll {} items).1 report).nodes.items ↔
        Node.imported item ∈
          (ClassGraph.ofStaged (Staging.stageAll {} others).1 report').nodes.items := by
    intro item
    rw [mem_imported_stageAll, mem_imported_stageAll, firsts]
  cases node with
  | imported item => exact imported item
  | external name =>
    refine (wired_stageAll items report).mem_external_iff.trans ?_
    refine Iff.trans ?_ (wired_stageAll others report').mem_external_iff.symm
    exact and_congr (exists_congr fun item => and_congr_left fun _ => imported item)
      (forall_congr' fun item => imp_congr_left (imported item))

/-- The package tree holds the imported classes, and these are the same. -/
theorem root_eq (firsts : ∀ name, items.find? (·.name = name) = others.find? (·.name = name))
    (report report' : Report) :
    (ClassGraph.ofStaged (Staging.stageAll {} items).1 report).root =
      (ClassGraph.ofStaged (Staging.stageAll {} others).1 report').root := by
  refine Package.ofClasses_perm (List.Perm.map _ (List.Perm.filter _ ?_))
  exact perm_nodes (wired_stageAll items report) (wired_stageAll others report')
    (mem_nodes_congr firsts report report')

/-- The same classes in two orders, of which classes with one name come in the same. -/
structure Reordered (items others : List SourcedClass) : Prop where
  perm : items.Perm others
  inOrder : ∀ name, items.filter (·.name = name) = others.filter (·.name = name)

/-- So it is the same class that keeps a name. -/
theorem Reordered.find?_eq (h : Reordered items others) (name : String) :
    items.find? (·.name = name) = others.find? (·.name = name) := by
  rw [← List.head?_filter, ← List.head?_filter, h.inOrder]

/-- Classes that come in two orders give graphs with the same views, if classes of one name come in
the same order. -/
theorem ofStaged_sameViews (h : Reordered items others) (report report' : Report) :
    SameViews (ClassGraph.ofStaged (Staging.stageAll {} items).1 report)
      (ClassGraph.ofStaged (Staging.stageAll {} others).1 report') :=
  sameViews_of_nodes (wired_stageAll items report) (wired_stageAll others report')
    (mem_nodes_congr h.find?_eq report report') (root_eq h.find?_eq report report')

/-- A class of which only the name and the superclass are declared. -/
def declared (name : String) (superclass : Option String) : SourcedClass :=
  { decl := { (default : ClassDecl) with name, superclass }, source := none }

/-- A class that extends `p.B`, and one that comes later with the same name. -/
def namesakes : List SourcedClass := [declared "p.A" (some "p.B"), declared "p.A" none]

/-- Their superclass comes behind both or before them, and nobody imports the one of that. -/
theorem ofStaged_sameViews_namesakes :
    Reordered (namesakes ++ [declared "p.B" (some "p.C")])
      ([declared "p.B" (some "p.C")] ++ namesakes) ∧
    SameViews
      (ClassGraph.ofStaged
        (Staging.stageAll {} (namesakes ++ [declared "p.B" (some "p.C")])).1 {})
      (ClassGraph.ofStaged
        (Staging.stageAll {} ([declared "p.B" (some "p.C")] ++ namesakes)).1 {}) := by
  have reordered : Reordered (namesakes ++ [declared "p.B" (some "p.C")])
      ([declared "p.B" (some "p.C")] ++ namesakes) := by
    refine ⟨List.perm_append_comm, fun name => ?_⟩
    rw [List.filter_append, List.filter_append]
    by_cases superclass : "p.B" = name
    · subst superclass
      rfl
    · have left : [declared "p.B" (some "p.C")].filter (·.name = name) = [] :=
        List.filter_cons_of_neg fun same => superclass (of_decide_eq_true same)
      rw [left, List.append_nil, List.nil_append]
  exact ⟨reordered, ofStaged_sameViews reordered {} {}⟩

end Sequences

end ClassAtlas.ClassGraph
