import ClassAtlas.Proofs.ClassDecl.Mentions
import ClassAtlas.Proofs.ClassGraph.Dependencies

/-!
# Forwards and backwards

A class finds its supertypes by their names, and a supertype finds its subtypes by the edges of the
graph. `ofStaged_viewsAgree`: in every built graph both ways tell the same, since every name that a
declaration mentions has a node and every reference to another class an edge.
-/

namespace ClassAtlas

/-! ## What a declaration mentions -/

theorem ClassReference.mem_ofKind {reference : ClassReference} {kind : DependencyKind}
    {targets : List String} :
    reference ∈ ofKind kind targets ↔ reference.kind = kind ∧ reference.target ∈ targets := by
  obtain ⟨target, role⟩ := reference
  simp [ofKind, and_comm, eq_comm]

namespace ClassDecl

open ClassReference

variable {decl : ClassDecl} {name : String}

-- These three roles stand only at the head of a declaration: the other parts give other roles.

theorem mem_mentions_extending :
    { target := name, kind := .extending } ∈ decl.mentions ↔ decl.superclass = some name := by
  simp [mentions, FieldDecl.mentions, MethodDecl.mentions, ClassSignature.mentions,
    MethodSignature.mentions, ofAnnotations, mem_ofKind]

theorem mem_mentions_implementing :
    { target := name, kind := .implementing } ∈ decl.mentions ↔ name ∈ decl.interfaces := by
  simp [mentions, FieldDecl.mentions, MethodDecl.mentions, ClassSignature.mentions,
    MethodSignature.mentions, ofAnnotations, mem_ofKind]

theorem mem_mentions_enclosing :
    { target := name, kind := .enclosingClass } ∈ decl.mentions ↔
      decl.enclosingClass = some name := by
  simp [mentions, FieldDecl.mentions, MethodDecl.mentions, ClassSignature.mentions,
    MethodSignature.mentions, ofAnnotations, mem_ofKind]

end ClassDecl

namespace ClassGraph

open Roster Wiring

/-- What a graph tells forwards it tells backwards. -/
structure ViewsAgree (graph : ClassGraph) : Prop where
  /-- A dependency on an imported class is told by both of its ends. -/
  dependency : ∀ dependency : Dependency,
    (dependency ∈ graph.dependenciesFrom dependency.origin ∧
        graph.contains dependency.target = true) ↔
      ∃ target, graph.lookup dependency.target = some target ∧
        dependency ∈ graph.dependents target
  origin : ∀ name, ∀ dependency ∈ graph.dependenciesFrom name, dependency.origin = name
  target : ∀ node, ∀ dependency ∈ graph.dependents node, dependency.target = node.name
  forwardsOnce : ∀ name, (graph.dependenciesFrom name).Nodup
  backwardsOnce : ∀ node, (graph.dependents node).Nodup
  stub : ∀ node ∈ graph.nodes.items, node.isResolved = false →
    graph.dependenciesFrom node.name = [] ∧ graph.dependents node = []
  /-- What a declaration names is found, with that name. -/
  superclass : ∀ node ∈ graph.nodes.items,
    (graph.superclass? node).map Node.name = node.decl?.bind (·.superclass)
  enclosingClass : ∀ node ∈ graph.nodes.items,
    (graph.enclosingClass? node).map Node.name = node.decl?.bind (·.enclosingClass)
  interfaces : ∀ node ∈ graph.nodes.items,
    (graph.interfaces node).map Node.name = (node.decl?.map (·.interfaces)).getD []
  /-- Of different imported classes, one extends or implements the other exactly if that one tells
  so. -/
  subclass : ∀ lower upper, Node.imported lower ∈ graph.nodes.items →
    Node.imported upper ∈ graph.nodes.items → lower.name ≠ upper.name →
      (graph.superclass? (.imported lower) = some (.imported upper) ↔
        lower.name ∈ graph.subclasses (.imported upper))
  implementation : ∀ lower upper, Node.imported lower ∈ graph.nodes.items →
    Node.imported upper ∈ graph.nodes.items → lower.name ≠ upper.name →
      (Node.imported upper ∈ graph.interfaces (.imported lower) ↔
        lower.name ∈ graph.implementations (.imported upper))
  /-- No class is told to depend on itself, whatever its declaration names. -/
  notItself : ∀ node ∈ graph.nodes.items,
    node.name ∉ graph.subclasses node ∧ node.name ∉ graph.implementations node ∧
      (∀ dependency ∈ graph.dependenciesFrom node.name, dependency.target ≠ node.name) ∧
      ∀ dependency ∈ graph.dependents node, dependency.origin ≠ node.name

section Wired

variable {staged : List SourcedClass} {graph : ClassGraph}
  (wired : Wired staged (pairsOf staged) graph.toWiring)

include wired

/-! ## Looking up what is mentioned -/

theorem lookup_imported {item : SourcedClass} (inside : Node.imported item ∈ graph.nodes.items) :
    graph.lookup item.name = some (.imported item) :=
  wired.indexed.find?_eq_some_iff.mpr ⟨inside, rfl⟩

/-- Imported classes with one name are one class. -/
theorem imported_unique {item other : SourcedClass}
    (inside : Node.imported item ∈ graph.nodes.items)
    (inside' : Node.imported other ∈ graph.nodes.items) (same : item.name = other.name) :
    item = other := by
  have found := lookup_imported wired inside
  rw [same, lookup_imported wired inside'] at found
  exact (Node.imported.inj (Option.some_inj.mp found)).symm

/-- Every name that an imported class mentions has a node, its own name too. -/
theorem exists_lookup_of_mention {item : SourcedClass} {reference : ClassReference}
    (inside : Node.imported item ∈ graph.nodes.items)
    (mentions : reference ∈ item.decl.mentions) :
    ∃ node, graph.lookup reference.target = some node ∧ node.name = reference.target := by
  by_cases own : reference.target = item.name
  · exact ⟨.imported item, own ▸ lookup_imported wired inside, own.symm⟩
  · exact exists_node_of_reference wired inside (ClassDecl.mem_references.mpr ⟨mentions, own⟩)

omit wired in
/-- A name that has a node gives it. -/
theorem map_name_bind_lookup {name? : Option String}
    (h : ∀ name, name? = some name → ∃ node, graph.lookup name = some node ∧ node.name = name) :
    (name?.bind graph.lookup).map Node.name = name? := by
  cases name? with
  | none => rfl
  | some name =>
    obtain ⟨node, found, same⟩ := h name rfl
    rw [Option.bind_some, found, Option.map_some, same]

omit wired in
/-- Names that all have nodes give them all. -/
theorem map_name_filterMap_lookup {names : List String}
    (h : ∀ name ∈ names, ∃ node, graph.lookup name = some node ∧ node.name = name) :
    (names.filterMap graph.lookup).map Node.name = names := by
  induction names with
  | nil => rfl
  | cons name names ih =>
    obtain ⟨node, found, same⟩ := h name List.mem_cons_self
    rw [List.filterMap_cons, found]
    dsimp only
    rw [List.map_cons, same, ih fun other later => h other (List.mem_cons_of_mem _ later)]

theorem map_name_superclass? {item : SourcedClass}
    (inside : Node.imported item ∈ graph.nodes.items) :
    (graph.superclass? (.imported item)).map Node.name = item.decl.superclass :=
  map_name_bind_lookup fun _ named => exists_lookup_of_mention wired inside
    (ClassDecl.mem_mentions_extending.mpr named)

theorem map_name_enclosingClass? {item : SourcedClass}
    (inside : Node.imported item ∈ graph.nodes.items) :
    (graph.enclosingClass? (.imported item)).map Node.name = item.decl.enclosingClass :=
  map_name_bind_lookup fun _ named => exists_lookup_of_mention wired inside
    (ClassDecl.mem_mentions_enclosing.mpr named)

theorem map_name_interfaces {item : SourcedClass}
    (inside : Node.imported item ∈ graph.nodes.items) :
    (graph.interfaces (.imported item)).map Node.name = item.decl.interfaces :=
  map_name_filterMap_lookup fun _ listed => exists_lookup_of_mention wired inside
    (ClassDecl.mem_mentions_implementing.mpr listed)

/-! ## Subtypes -/

theorem mem_dependentsOfKind {node : Node} {kind : DependencyKind} {name : String} :
    name ∈ graph.dependentsOfKind node kind ↔
      node.isResolved = true ∧ graph.Refers { origin := name, target := node.name, kind } := by
  simp only [dependentsOfKind, List.mem_map, List.mem_filter, mem_dependents wired,
    decide_eq_true_iff]
  constructor
  · rintro ⟨⟨origin, target, role⟩, ⟨⟨resolved, rfl, refers⟩, rfl⟩, rfl⟩
    exact ⟨resolved, refers⟩
  · rintro ⟨resolved, refers⟩
    exact ⟨_, ⟨⟨resolved, rfl, refers⟩, rfl⟩, rfl⟩

/-- An imported class refers to another one in a role exactly if it mentions it in this role. -/
theorem refers_imported_iff {lower upper : SourcedClass} {kind : DependencyKind}
    (inside : Node.imported lower ∈ graph.nodes.items) (different : lower.name ≠ upper.name) :
    graph.Refers { origin := lower.name, target := upper.name, kind } ↔
      { target := upper.name, kind } ∈ lower.decl.mentions := by
  constructor
  · rintro ⟨item, inside', same, refers⟩
    rw [imported_unique wired inside' inside same] at refers
    exact (ClassDecl.mem_references.mp refers).1
  · intro mentions
    exact ⟨lower, inside, rfl, ClassDecl.mem_references.mpr ⟨mentions, different.symm⟩⟩

theorem superclass?_eq_some_iff {lower upper : SourcedClass}
    (inside : Node.imported lower ∈ graph.nodes.items)
    (inside' : Node.imported upper ∈ graph.nodes.items) :
    graph.superclass? (.imported lower) = some (.imported upper) ↔
      lower.decl.superclass = some upper.name := by
  constructor
  · intro found
    rw [← map_name_superclass? wired inside, found]
    rfl
  · intro named
    show lower.decl.superclass.bind graph.lookup = _
    rw [named, Option.bind_some, lookup_imported wired inside']

theorem mem_interfaces_iff {lower upper : SourcedClass}
    (inside : Node.imported lower ∈ graph.nodes.items)
    (inside' : Node.imported upper ∈ graph.nodes.items) :
    Node.imported upper ∈ graph.interfaces (.imported lower) ↔
      upper.name ∈ lower.decl.interfaces := by
  constructor
  · intro listed
    rw [← map_name_interfaces wired inside]
    exact List.mem_map_of_mem listed
  · intro named
    exact List.mem_filterMap.mpr ⟨upper.name, named, lookup_imported wired inside'⟩

/-! ## Both ways -/

/-- Forwards, a dependency on an imported class is told exactly if it is told backwards. -/
theorem mem_dependenciesFrom_iff_mem_dependents (dependency : Dependency) :
    (dependency ∈ graph.dependenciesFrom dependency.origin ∧
        graph.contains dependency.target = true) ↔
      ∃ target, graph.lookup dependency.target = some target ∧
        dependency ∈ graph.dependents target := by
  constructor
  · rintro ⟨forwards, known⟩
    obtain ⟨item, inside, named⟩ := (contains_iff wired).mp known
    refine ⟨.imported item, named ▸ lookup_imported wired inside, ?_⟩
    exact (mem_dependents wired).mpr ⟨rfl, named.symm, ((mem_dependenciesFrom wired).mp forwards).2⟩
  · rintro ⟨target, found, backwards⟩
    obtain ⟨resolved, same, refers⟩ := (mem_dependents wired).mp backwards
    refine ⟨(mem_dependenciesFrom wired).mpr ⟨rfl, refers⟩, ?_⟩
    cases target with
    | imported item =>
      exact (contains_iff wired).mpr
        ⟨item, (wired.indexed.find?_eq_some_iff.mp found).1, same.symm⟩
    | external name => cases resolved

theorem views_of_stub {node : Node} (inside : node ∈ graph.nodes.items)
    (stub : node.isResolved = false) :
    graph.dependenciesFrom node.name = [] ∧ graph.dependents node = [] := by
  constructor
  · rw [List.eq_nil_iff_forall_not_mem]
    intro dependency listed
    obtain ⟨starts, item, imported, named, _⟩ := (mem_dependenciesFrom wired).mp listed
    have found := lookup_imported wired imported
    rw [named, starts, lookup, wired.indexed.find?_eq_some_iff.mpr ⟨inside, rfl⟩] at found
    rw [Option.some_inj.mp found] at stub
    cases stub
  · rw [dependents, if_neg (by rw [stub]; exact Bool.false_ne_true)]

omit wired in
/-- No reference leads from a name to itself. -/
theorem Refers.origin_ne_target {dependency : Dependency} (refers : graph.Refers dependency) :
    dependency.origin ≠ dependency.target := by
  obtain ⟨item, _, named, listed⟩ := refers
  exact named ▸ (ClassDecl.target_ne_name listed).symm

theorem viewsAgree : graph.ViewsAgree where
  dependency := mem_dependenciesFrom_iff_mem_dependents wired
  origin := fun _ _ listed => ((mem_dependenciesFrom wired).mp listed).1
  target := fun _ _ listed => ((mem_dependents wired).mp listed).2.1
  forwardsOnce := nodup_dependenciesFrom wired
  backwardsOnce := nodup_dependents wired
  stub := fun _ inside => views_of_stub wired inside
  superclass := by
    intro node inside
    cases node with
    | imported item => exact map_name_superclass? wired inside
    | external name => rfl
  enclosingClass := by
    intro node inside
    cases node with
    | imported item => exact map_name_enclosingClass? wired inside
    | external name => rfl
  interfaces := by
    intro node inside
    cases node with
    | imported item => exact map_name_interfaces wired inside
    | external name => rfl
  subclass := by
    intro lower upper inside inside' different
    rw [superclass?_eq_some_iff wired inside inside', subclasses, mem_dependentsOfKind wired]
    rw [← ClassDecl.mem_mentions_extending, ← refers_imported_iff wired inside different]
    exact (and_iff_right rfl).symm
  implementation := by
    intro lower upper inside inside' different
    rw [mem_interfaces_iff wired inside inside', implementations, mem_dependentsOfKind wired]
    rw [← ClassDecl.mem_mentions_implementing, ← refers_imported_iff wired inside different]
    exact (and_iff_right rfl).symm
  notItself := by
    intro node _
    refine ⟨fun listed => ?_, fun listed => ?_, fun dependency listed => ?_,
      fun dependency listed => ?_⟩
    · exact ((mem_dependentsOfKind wired).mp listed).2.origin_ne_target rfl
    · exact ((mem_dependentsOfKind wired).mp listed).2.origin_ne_target rfl
    · obtain ⟨starts, refers⟩ := (mem_dependenciesFrom wired).mp listed
      exact fun loop => refers.origin_ne_target (starts.trans loop.symm)
    · obtain ⟨_, ends, refers⟩ := (mem_dependents wired).mp listed
      exact fun loop => refers.origin_ne_target (loop.trans ends.symm)

end Wired

/-- In the graph of classes that are staged one by one, forward and backward views tell the same. -/
theorem ofStaged_viewsAgree (items : List SourcedClass) (report : Report) :
    (ClassGraph.ofStaged (Staging.stageAll {} items).1 report).ViewsAgree :=
  viewsAgree (wired_stageAll items report)

end ClassGraph

end ClassAtlas
