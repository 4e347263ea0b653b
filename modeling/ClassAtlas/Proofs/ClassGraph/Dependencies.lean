import ClassAtlas.Proofs.ClassGraph.Resolution

/-!
# Dependencies of a built graph

Forwards and backwards, the views list the references of imported classes: `mem_dependenciesFrom`
and `mem_dependents` say which, and each is listed once. `Wired` holds of every built graph, so what
is said here is said of all of them.
-/

namespace ClassAtlas.ClassGraph

open Roster Wiring

/-- An imported class refers to a class in this role. -/
def Refers (graph : ClassGraph) (dependency : Dependency) : Prop :=
  ∃ item, Node.imported item ∈ graph.nodes.items ∧ item.name = dependency.origin ∧
    { target := dependency.target, kind := dependency.kind } ∈ item.decl.references

section Order

variable {a b c : String × DependencyKind}

theorem rank_injective {kind other : DependencyKind} (h : kind.rank = other.rank) :
    kind = other := by
  cases kind <;> cases other <;> simp_all [DependencyKind.rank]

theorem leKey_iff : leKey a b = true ↔ a.1 < b.1 ∨ a.1 = b.1 ∧ a.2.rank ≤ b.2.rank := by
  simp [leKey]

theorem leKey_trans (hab : leKey a b = true) (hbc : leKey b c = true) : leKey a c = true := by
  rw [leKey_iff] at hab hbc ⊢
  rcases hab with hab | ⟨hab, rab⟩
  · rcases hbc with hbc | ⟨hbc, _⟩
    · exact .inl (lt_trans hab hbc)
    · exact .inl (hbc ▸ hab)
  · rcases hbc with hbc | ⟨hbc, rbc⟩
    · exact .inl (hab ▸ hbc)
    · exact .inr ⟨hab.trans hbc, Nat.le_trans rab rbc⟩

theorem leKey_total (a b : String × DependencyKind) : (leKey a b || leKey b a) = true := by
  rw [Bool.or_eq_true, leKey_iff, leKey_iff]
  rcases lt_trichotomy a.1 b.1 with less | same | greater
  · exact .inl (.inl less)
  · rcases Nat.le_total a.2.rank b.2.rank with le | ge
    · exact .inl (.inr ⟨same, le⟩)
    · exact .inr (.inr ⟨same.symm, ge⟩)
  · exact .inr (.inl greater)

theorem leKey_antisymm (hab : leKey a b = true) (hba : leKey b a = true) : a = b := by
  rw [leKey_iff] at hab hba
  rcases hab with hab | ⟨names, rab⟩
  · rcases hba with hba | ⟨hba, _⟩
    · exact absurd hba (lt_asymm hab)
    · exact absurd hba.symm (ne_of_lt hab)
  · rcases hba with hba | ⟨_, rba⟩
    · exact absurd names.symm (ne_of_lt hba)
    · exact Prod.ext names (rank_injective (Nat.le_antisymm rab rba))

end Order

/-! ## Edges and the names that they join -/

section Edges

variable {graph : ClassGraph} {edge : Edge} {dependency : Dependency}

theorem dependency?_eq_some_iff : graph.dependency? edge = some dependency ↔
    ∃ origin target, graph.nodes.items[edge.origin]? = some origin ∧
      graph.nodes.items[edge.target]? = some target ∧
      { origin := origin.name, target := target.name, kind := edge.kind } = dependency := by
  simp [dependency?, Option.bind_eq_some_iff]

theorem mem_dependenciesWhere {choose : Edge → Bool} :
    dependency ∈ graph.dependenciesWhere choose ↔
      ∃ edge ∈ graph.edges, choose edge = true ∧ graph.dependency? edge = some dependency := by
  simp [dependenciesWhere, and_assoc]

variable (indexed : graph.nodes.Indexed Node.name)
include indexed

/-- A dependency tells the places of both names. -/
theorem place?_of_dependency? (h : graph.dependency? edge = some dependency) :
    graph.nodes.place? dependency.origin = some edge.origin ∧
      graph.nodes.place? dependency.target = some edge.target := by
  obtain ⟨origin, target, ho, ht, rfl⟩ := dependency?_eq_some_iff.mp h
  exact ⟨(indexed _ _).mpr (by rw [ho, Option.map_some]),
    (indexed _ _).mpr (by rw [ht, Option.map_some])⟩

/-- So no two edges join the same names in the same role. -/
theorem edge_unique {other : Edge} (h : graph.dependency? edge = some dependency)
    (h' : graph.dependency? other = some dependency) : edge = other := by
  obtain ⟨origin, target⟩ := place?_of_dependency? indexed h
  obtain ⟨origin', target'⟩ := place?_of_dependency? indexed h'
  obtain ⟨_, _, _, _, rfl⟩ := dependency?_eq_some_iff.mp h
  obtain ⟨_, _, _, _, same⟩ := dependency?_eq_some_iff.mp h'
  have kind : other.kind = edge.kind := congrArg Dependency.kind same
  rw [origin] at origin'
  rw [target] at target'
  cases edge
  cases other
  simp_all

end Edges

/-! ## References -/

section Wired

variable {staged : List SourcedClass} {graph : ClassGraph}
  (wired : Wired staged (pairsOf staged) graph.toWiring)

include wired

/-- What an imported class refers to has a node. -/
theorem exists_node_of_reference {item : SourcedClass} {reference : ClassReference}
    (inside : Node.imported item ∈ graph.nodes.items)
    (refers : reference ∈ item.decl.references) :
    ∃ node, graph.lookup reference.target = some node ∧ node.name = reference.target := by
  obtain ⟨origin, there⟩ := List.mem_iff_getElem?.mp (wired.mem_imported.mp inside)
  have placed := (wired.placed reference.target).mpr
    (.inr ⟨_, mem_pairsOf.mpr ⟨item, there, refers⟩, rfl⟩)
  obtain ⟨place, found⟩ := Option.ne_none_iff_exists'.mp placed
  obtain ⟨node, at_place, named⟩ := Option.map_eq_some_iff.mp ((wired.indexed _ _).mp found)
  have listed := Array.mem_of_getElem? at_place
  exact ⟨node, wired.indexed.find?_eq_some_iff.mpr ⟨listed, named⟩, named⟩

/-- The edges stand for the references of imported classes. -/
theorem refers_iff {dependency : Dependency} : graph.Refers dependency ↔
    ∃ edge ∈ graph.edges, graph.dependency? edge = some dependency := by
  constructor
  · rintro ⟨item, inside, named, refers⟩
    obtain ⟨node, found, same⟩ := exists_node_of_reference wired inside refers
    obtain ⟨origin, ho⟩ := Array.mem_iff_getElem?.mp inside
    obtain ⟨target, ht⟩ :=
      Array.mem_iff_getElem?.mp (wired.indexed.find?_eq_some_iff.mp found).1
    refine ⟨{ origin, target, kind := dependency.kind }, ?_, ?_⟩
    · exact wired.mem_edges_iff.mpr ⟨item, node, ho, ht, same ▸ refers⟩
    · rw [dependency?_eq_some_iff]
      refine ⟨_, _, ho, ht, ?_⟩
      rw [same]
      exact congrArg (Dependency.mk · dependency.target dependency.kind) named
  · rintro ⟨edge, inside, told⟩
    obtain ⟨item, node, ho, ht, refers⟩ := wired.mem_edges_iff.mp inside
    obtain ⟨origin, target, ho', ht', rfl⟩ := dependency?_eq_some_iff.mp told
    rw [ho] at ho'
    rw [ht] at ht'
    cases ho'
    cases ht'
    exact ⟨item, Array.mem_of_getElem? ho, rfl, refers⟩

theorem nodup_dependenciesWhere (choose : Edge → Bool) :
    (graph.dependenciesWhere choose).Nodup := by
  rw [dependenciesWhere]
  refine ((wired.nodup_edges (nodup_pairsOf staged)).filter choose).filterMap ?_
  exact fun _ _ _ h h' => edge_unique wired.indexed h h'

/-- The chosen edges are the references of which the choice says the same. -/
theorem mem_dependenciesWhere_iff {choose : Edge → Bool} {dependency : Dependency}
    {chosen : Prop}
    (told : ∀ edge, graph.dependency? edge = some dependency → (choose edge = true ↔ chosen)) :
    dependency ∈ graph.dependenciesWhere choose ↔ chosen ∧ graph.Refers dependency := by
  rw [mem_dependenciesWhere, refers_iff wired]
  constructor
  · rintro ⟨edge, inside, choice, joins⟩
    exact ⟨(told edge joins).mp choice, edge, inside, joins⟩
  · rintro ⟨choice, edge, inside, joins⟩
    exact ⟨edge, inside, (told edge joins).mpr choice, joins⟩

theorem mem_dependenciesWhere_origin {dependency : Dependency} {name : String} :
    dependency ∈ graph.dependenciesWhere
        (fun edge => some edge.origin = graph.nodes.place? name) ↔
      dependency.origin = name ∧ graph.Refers dependency := by
  refine mem_dependenciesWhere_iff wired fun edge joins => ?_
  obtain ⟨origin, target, ho, _, rfl⟩ := dependency?_eq_some_iff.mp joins
  rw [decide_eq_true_iff, eq_comm, wired.indexed, ho, Option.map_some, Option.some_inj]

theorem mem_dependenciesWhere_target {dependency : Dependency} {name : String} :
    dependency ∈ graph.dependenciesWhere
        (fun edge => some edge.target = graph.nodes.place? name) ↔
      dependency.target = name ∧ graph.Refers dependency := by
  refine mem_dependenciesWhere_iff wired fun edge joins => ?_
  obtain ⟨origin, target, _, ht, rfl⟩ := dependency?_eq_some_iff.mp joins
  rw [decide_eq_true_iff, eq_comm, wired.indexed, ht, Option.map_some, Option.some_inj]

/-- Imported names are the names of imported nodes. -/
theorem contains_iff {name : String} : graph.contains name = true ↔
    ∃ item, Node.imported item ∈ graph.nodes.items ∧ item.name = name := by
  rw [contains, get?, lookup, Option.isSome_filter, Option.any_eq_true]
  constructor
  · rintro ⟨node, found, resolved⟩
    obtain ⟨inside, named⟩ := wired.indexed.find?_eq_some_iff.mp found
    cases node with
    | imported item => exact ⟨item, inside, named⟩
    | external name => cases resolved
  · rintro ⟨item, inside, named⟩
    exact ⟨_, wired.indexed.find?_eq_some_iff.mpr ⟨inside, named⟩, rfl⟩

/-- Only imported classes refer to others. -/
theorem contains_origin {dependency : Dependency} (refers : graph.Refers dependency) :
    graph.contains dependency.origin = true := by
  obtain ⟨item, inside, named, _⟩ := refers
  exact (contains_iff wired).mpr ⟨item, inside, named⟩

/-! ## Views -/

/-- Forwards, a class has the dependencies that start at its name. -/
theorem mem_dependenciesFrom {dependency : Dependency} {name : String} :
    dependency ∈ graph.dependenciesFrom name ↔
      dependency.origin = name ∧ graph.Refers dependency := by
  rw [dependenciesFrom, List.mem_mergeSort]
  exact mem_dependenciesWhere_origin wired

/-- Every dependency on a class starts at an imported class, so asking for one drops nothing. -/
theorem filter_dependenciesWhere_target {name : String} :
    ((graph.dependenciesWhere fun edge => some edge.target = graph.nodes.place? name).filter
        fun dependency => graph.contains dependency.origin) =
      graph.dependenciesWhere fun edge => some edge.target = graph.nodes.place? name :=
  List.filter_eq_self.mpr fun _ inside =>
    contains_origin wired ((mem_dependenciesWhere_target wired).mp inside).2

/-- Backwards, an imported class has those that end at its name, and a stub has none. -/
theorem mem_dependents {dependency : Dependency} {node : Node} :
    dependency ∈ graph.dependents node ↔
      node.isResolved = true ∧ dependency.target = node.name ∧ graph.Refers dependency := by
  rw [dependents, filter_dependenciesWhere_target wired]
  split
  next resolved =>
    rw [List.mem_mergeSort, mem_dependenciesWhere_target wired, and_iff_right resolved]
  next stub => simp [stub]

theorem nodup_dependenciesFrom (name : String) : (graph.dependenciesFrom name).Nodup := by
  rw [dependenciesFrom, (List.mergeSort_perm _ _).nodup_iff]
  exact nodup_dependenciesWhere wired _

theorem nodup_dependents (node : Node) : (graph.dependents node).Nodup := by
  rw [dependents, filter_dependenciesWhere_target wired]
  split
  next =>
    rw [(List.mergeSort_perm _ _).nodup_iff]
    exact nodup_dependenciesWhere wired _
  next => exact List.nodup_nil

end Wired

end ClassAtlas.ClassGraph
