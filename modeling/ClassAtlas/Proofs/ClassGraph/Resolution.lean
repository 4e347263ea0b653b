import ClassAtlas.ClassGraph.View
import ClassAtlas.Proofs.ClassGraph.Staging
import ClassAtlas.Proofs.ClassGraph.Wiring
import Mathlib.Data.String.Basic

/-!
# What a built graph holds

`ofStaged_resolves`: the graph of classes that are staged one by one has the first class of each
name, one stub for each other name that these refer to, right places, and exactly one edge for each
of their references.
-/

namespace ClassAtlas

namespace Wiring

open Roster

variable {staged : List SourcedClass} {done : List (Nat × ClassReference)} {wiring : Wiring}

/-! ## References and edges -/

theorem mem_pairsOf {origin : Nat} {reference : ClassReference} :
    (origin, reference) ∈ pairsOf staged ↔
      ∃ item, staged[origin]? = some item ∧ reference ∈ item.decl.references := by
  simp only [pairsOf, List.mem_flatMap, List.mem_map, Prod.exists, Prod.mk.injEq]
  constructor
  · rintro ⟨item, _, inside, _, refers, rfl, rfl⟩
    exact ⟨item, List.mk_mem_zipIdx_iff_getElem?.mp inside, refers⟩
  · rintro ⟨item, there, refers⟩
    exact ⟨item, origin, List.mk_mem_zipIdx_iff_getElem?.mpr there, reference, refers, rfl, rfl⟩

theorem nodup_pairsOf (staged : List SourcedClass) : (pairsOf staged).Nodup := by
  rw [pairsOf, List.nodup_flatMap]
  constructor
  · intro p _
    exact p.1.decl.nodup_references.map fun _ _ same => (Prod.mk.inj same).2
  · have places : (staged.zipIdx.map Prod.snd).Nodup := by
      rw [List.zipIdx_map_snd]
      exact List.nodup_range'
    rw [List.Nodup, List.pairwise_map] at places
    apply places.imp
    intro p q different pair hp hq
    obtain ⟨_, _, rfl⟩ := List.mem_map.mp hp
    obtain ⟨_, _, same⟩ := List.mem_map.mp hq
    exact different (Prod.mk.inj same).1.symm

theorem edgeOf?_eq_some_iff {nodes : Roster Node} {pair : Nat × ClassReference} {edge : Edge} :
    edgeOf? nodes pair = some edge ↔ nodes.place? pair.2.target = some edge.target ∧
      edge.origin = pair.1 ∧ edge.kind = pair.2.kind ∧ edge.target ≠ edge.origin := by
  rw [edgeOf?, Option.bind_eq_some_iff]
  constructor
  · rintro ⟨target, found, h⟩
    split at h
    next => cases h
    next other =>
      cases h
      exact ⟨found, rfl, rfl, other⟩
  · obtain ⟨origin, target, kind⟩ := edge
    rintro ⟨found, rfl, rfl, other⟩
    exact ⟨target, found, if_neg other⟩

/-- Different references give different edges: a place has one name. -/
theorem Wired.nodup_edges (wired : Wired staged done wiring) (nodup : done.Nodup) :
    wiring.edges.toList.Nodup := by
  rw [wired.edges]
  refine nodup.filterMap fun first second edge hf hs => ?_
  obtain ⟨found, origin, kind, _⟩ := edgeOf?_eq_some_iff.mp hf
  obtain ⟨found', origin', kind', _⟩ := edgeOf?_eq_some_iff.mp hs
  have target : first.2.target = second.2.target := by
    have one := (wired.indexed _ _).mp found
    rw [(wired.indexed _ _).mp found'] at one
    exact (Option.some_inj.mp one).symm
  obtain ⟨_, _, _⟩ := first
  obtain ⟨_, _, _⟩ := second
  simp_all

theorem Wired.mem_edges (wired : Wired staged done wiring) {edge : Edge} :
    edge ∈ wiring.edges ↔ ∃ pair ∈ done, wiring.nodes.place? pair.2.target = some edge.target ∧
      edge.origin = pair.1 ∧ edge.kind = pair.2.kind ∧ edge.target ≠ edge.origin := by
  rw [← Array.mem_toList_iff, wired.edges, List.mem_filterMap]
  simp only [edgeOf?_eq_some_iff]

/-! ## Nodes -/

theorem Wired.getElem?_imported (wired : Wired staged done wiring) {place : Nat}
    {item : SourcedClass} :
    wiring.nodes.items[place]? = some (.imported item) ↔ staged[place]? = some item := by
  obtain ⟨stubs, nodes⟩ := wired.nodes
  rw [← Array.getElem?_toList, nodes, List.getElem?_append, List.length_map, List.getElem?_map,
    List.getElem?_map]
  split
  next => cases staged[place]? <;> simp
  next behind =>
    rw [List.getElem?_eq_none (Nat.le_of_not_lt behind)]
    cases stubs[place - staged.length]? <;> simp

theorem Wired.mem_imported (wired : Wired staged done wiring) {item : SourcedClass} :
    Node.imported item ∈ wiring.nodes.items ↔ item ∈ staged := by
  rw [Array.mem_iff_getElem?, List.mem_iff_getElem?]
  simp only [wired.getElem?_imported]

theorem Wired.mem_external (wired : Wired staged done wiring) {name : String} :
    Node.external name ∈ wiring.nodes.items ↔
      (∃ pair ∈ done, pair.2.target = name) ∧ ∀ item ∈ staged, item.name ≠ name := by
  constructor
  · intro stub
    have strange : ∀ item ∈ staged, item.name ≠ name := by
      intro item inside same
      obtain ⟨_, hs⟩ := Array.mem_iff_getElem?.mp stub
      obtain ⟨_, hi⟩ := Array.mem_iff_getElem?.mp (wired.mem_imported.mpr inside)
      have one := wired.indexed.place_unique hi hs same
      rw [one, hs] at hi
      cases hi
    refine ⟨?_, strange⟩
    have placed : wiring.nodes.place? name ≠ none := fun missing =>
      wired.indexed.place?_eq_none_iff.mp missing _ stub rfl
    rcases (wired.placed name).mp placed with own | referred
    · obtain ⟨item, inside, same⟩ := List.mem_map.mp own
      exact absurd same (strange item inside)
    · exact referred
  · rintro ⟨referred, strange⟩
    have placed := (wired.placed name).mpr (.inr referred)
    rw [Ne, wired.indexed.place?_eq_none_iff] at placed
    push Not at placed
    obtain ⟨node, inside, rfl⟩ := placed
    cases node with
    | imported item => exact absurd rfl (strange item (wired.mem_imported.mp inside))
    | external name => exact inside

theorem Wired.countP_imported (wired : Wired staged done wiring) :
    wiring.nodes.items.toList.countP Node.isResolved = staged.length := by
  obtain ⟨stubs, nodes⟩ := wired.nodes
  rw [nodes, List.countP_append, List.countP_map, List.countP_map]
  have own : staged.countP (Node.isResolved ∘ Node.imported) = staged.length :=
    List.countP_eq_length.mpr fun _ _ => rfl
  have others : stubs.countP (Node.isResolved ∘ Node.external) = 0 :=
    List.countP_eq_zero.mpr fun _ _ => nofun
  rw [own, others, Nat.add_zero]

/-- The edges of a finished loop. That none leads back needs no condition, since no class refers to
itself. -/
theorem Wired.mem_edges_iff (wired : Wired staged (pairsOf staged) wiring) {edge : Edge} :
    edge ∈ wiring.edges ↔
      ∃ item node, wiring.nodes.items[edge.origin]? = some (.imported item) ∧
        wiring.nodes.items[edge.target]? = some node ∧
        { target := node.name, kind := edge.kind } ∈ item.decl.references := by
  rw [wired.mem_edges]
  constructor
  · rintro ⟨⟨origin, target, kind⟩, inside, found, rfl, rfl, _⟩
    obtain ⟨item, there, refers⟩ := mem_pairsOf.mp inside
    obtain ⟨node, there', rfl⟩ := Option.map_eq_some_iff.mp ((wired.indexed _ _).mp found)
    exact ⟨item, node, wired.getElem?_imported.mpr there, there', refers⟩
  · rintro ⟨item, node, there, there', refers⟩
    refine ⟨_, mem_pairsOf.mpr ⟨item, wired.getElem?_imported.mp there, refers⟩, ?_, rfl, rfl, ?_⟩
    · exact (wired.indexed _ _).mpr (by rw [there', Option.map_some])
    · intro loop
      rw [loop, there] at there'
      cases there'
      exact ClassDecl.target_ne_name refers rfl

/-- The stubs of a finished loop are the names that imported classes refer to and none bears. -/
theorem Wired.mem_external_iff (wired : Wired staged (pairsOf staged) wiring) {name : String} :
    Node.external name ∈ wiring.nodes.items ↔
      (∃ item, Node.imported item ∈ wiring.nodes.items ∧
        ∃ reference ∈ item.decl.references, reference.target = name) ∧
      ∀ item, Node.imported item ∈ wiring.nodes.items → item.name ≠ name := by
  refine wired.mem_external.trans (and_congr ?_ ?_)
  · constructor
    · rintro ⟨⟨origin, reference⟩, pair, rfl⟩
      obtain ⟨item, there, refers⟩ := mem_pairsOf.mp pair
      have inside := wired.mem_imported.mpr (List.mem_of_getElem? there)
      exact ⟨item, inside, reference, refers, rfl⟩
    · rintro ⟨item, inside, reference, refers, rfl⟩
      obtain ⟨origin, there⟩ := List.mem_iff_getElem?.mp (wired.mem_imported.mp inside)
      exact ⟨(origin, reference), mem_pairsOf.mpr ⟨item, there, refers⟩, rfl⟩
  · exact forall_congr' fun item => imp_congr wired.mem_imported.symm Iff.rfl

end Wiring

/-! ## Graphs -/

namespace ClassGraph

open Roster

/-- The graph of classes that came one by one. -/
structure Resolves (items : List SourcedClass) (graph : ClassGraph) : Prop where
  /-- The imported nodes are the first classes of each name. -/
  imported : ∀ item, Node.imported item ∈ graph.nodes.items ↔
    items.find? (·.name = item.name) = some item
  /-- The stubs are the names that imported classes refer to and none bears. -/
  external : ∀ name, Node.external name ∈ graph.nodes.items ↔
    (∃ item, Node.imported item ∈ graph.nodes.items ∧
      ∃ reference ∈ item.decl.references, reference.target = name) ∧
    ∀ item, Node.imported item ∈ graph.nodes.items → item.name ≠ name
  /-- No name has two nodes. -/
  unique : (graph.nodes.items.toList.map Node.name).Nodup
  /-- A name has a place exactly when the node there bears it. -/
  place : ∀ name place, graph.nodes.place? name = some place ↔
    (graph.nodes.items[place]?).map Node.name = some name
  /-- The edges are the references of imported classes. None leaves a stub. -/
  edge : ∀ origin target kind, { origin, target, kind } ∈ graph.edges ↔
    ∃ item node, graph.nodes.items[origin]? = some (.imported item) ∧
      graph.nodes.items[target]? = some node ∧
      { target := node.name, kind } ∈ item.decl.references
  edgesOnce : graph.edges.toList.Nodup
  noLoop : ∀ edge ∈ graph.edges, edge.target ≠ edge.origin
  /-- The views are in strict name order, and list every node once. -/
  classesSorted : (graph.classes.map Node.name).Pairwise (· < ·)
  externalSorted : (graph.externalClasses.map Node.name).Pairwise (· < ·)
  listed : (graph.classes ++ graph.externalClasses).Perm graph.nodes.items.toList
  resolved : ∀ node ∈ graph.classes, node.isResolved = true
  unresolved : ∀ node ∈ graph.externalClasses, node.isResolved = false
  size : graph.size = graph.classes.length
  classesImported : graph.report.classesImported = graph.size
  externalClasses : graph.report.externalClasses = graph.externalClasses.length

theorem sortedNodes_perm (graph : ClassGraph) (resolved : Bool) :
    (graph.sortedNodes resolved).Perm
      (graph.nodes.items.toList.filter (·.isResolved = resolved)) :=
  List.mergeSort_perm _ _

theorem isResolved_of_mem_sortedNodes {graph : ClassGraph} {resolved : Bool} {node : Node}
    (h : node ∈ graph.sortedNodes resolved) : node.isResolved = resolved := by
  rw [(graph.sortedNodes_perm resolved).mem_iff, List.mem_filter] at h
  exact of_decide_eq_true h.2

/-- Nodes with different names are sorted strictly. -/
theorem sortedNodes_strict {graph : ClassGraph}
    (unique : (graph.nodes.items.toList.map Node.name).Nodup) (resolved : Bool) :
    ((graph.sortedNodes resolved).map Node.name).Pairwise (· < ·) := by
  have kept := unique.sublist
    ((List.filter_sublist (p := fun node => node.isResolved = resolved)).map Node.name)
  exact List.pairwise_map.mpr (pairwise_lt_mergeSort Node.name kept)

theorem listed_perm (graph : ClassGraph) :
    (graph.classes ++ graph.externalClasses).Perm graph.nodes.items.toList := by
  have both := (graph.sortedNodes_perm true).append (graph.sortedNodes_perm false)
  refine both.trans ?_
  have split := List.filter_append_perm Node.isResolved graph.nodes.items.toList
  simpa using split

theorem length_classes (graph : ClassGraph) : graph.classes.length = graph.size := by
  rw [classes, (graph.sortedNodes_perm true).length_eq, size, List.countP_eq_length_filter]
  simp

theorem size_ofStaged {staged : Staging} {report : Report}
    (nodup : (staged.items.toList.map SourcedClass.name).Nodup) :
    (ClassGraph.ofStaged staged report).size = staged.size := by
  rw [size, Roster.size, ← Array.length_toList]
  exact (Wiring.wired_ofStaged nodup).countP_imported

/-- All nodes that are not imported are stubs. -/
theorem length_externalClasses_ofStaged {staged : Staging} {report : Report}
    (nodup : (staged.items.toList.map SourcedClass.name).Nodup) :
    (ClassGraph.ofStaged staged report).externalClasses.length =
      (ClassGraph.ofStaged staged report).nodes.size - staged.size := by
  have all := (ClassGraph.ofStaged staged report).listed_perm.length_eq
  rw [List.length_append, length_classes, size_ofStaged nodup] at all
  rw [Roster.size, ← Array.length_toList, ← all, Nat.add_sub_cancel_left]

/-- The invariant of resolution holds of everything that is staged class by class. -/
theorem wired_stageAll (items : List SourcedClass) (report : Report) :
    Wiring.Wired (Staging.stageAll {} items).1.items.toList
      (Wiring.pairsOf (Staging.stageAll {} items).1.items.toList)
      (ClassGraph.ofStaged (Staging.stageAll {} items).1 report).toWiring :=
  Wiring.wired_ofStaged (Staging.holds_stageAll items).indexed.nodup_names

/-- Imported are the first classes of their names. -/
theorem mem_imported_stageAll {items : List SourcedClass} {report : Report} {item : SourcedClass} :
    Node.imported item ∈ (ClassGraph.ofStaged (Staging.stageAll {} items).1 report).nodes.items ↔
      items.find? (·.name = item.name) = some item := by
  refine (wired_stageAll items report).mem_imported.trans ?_
  rw [(Staging.holds_stageAll items).kept, mem_firsts]

/-- What is staged class by class and then resolved is resolved rightly. -/
theorem ofStaged_resolves (items : List SourcedClass) (report : Report) :
    (ClassGraph.ofStaged (Staging.stageAll {} items).1 report).Resolves items := by
  have holds := Staging.holds_stageAll items
  generalize (Staging.stageAll {} items).1 = staged at holds
  have nodup := holds.indexed.nodup_names
  have wired := Wiring.wired_ofStaged nodup
  exact
    { imported := by
        intro item
        exact wired.mem_imported.trans (by rw [holds.kept, mem_firsts])
      external := fun _ => wired.mem_external_iff
      unique := wired.indexed.nodup_names
      place := wired.indexed
      edge := fun _ _ _ => wired.mem_edges_iff
      edgesOnce := wired.nodup_edges (Wiring.nodup_pairsOf _)
      noLoop := by
        intro edge inside
        obtain ⟨_, _, _, _, _, other⟩ := wired.mem_edges.mp inside
        exact other
      classesSorted := sortedNodes_strict wired.indexed.nodup_names true
      externalSorted := sortedNodes_strict wired.indexed.nodup_names false
      listed := listed_perm _
      resolved := fun _ => isResolved_of_mem_sortedNodes
      unresolved := fun _ => isResolved_of_mem_sortedNodes
      size := (length_classes _).symm
      classesImported := (size_ofStaged nodup).symm
      externalClasses := (length_externalClasses_ofStaged nodup).symm }

end ClassGraph

end ClassAtlas
