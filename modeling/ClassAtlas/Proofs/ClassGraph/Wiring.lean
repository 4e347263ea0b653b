import ClassAtlas.ClassGraph
import ClassAtlas.Proofs.ClassGraph.Firsts
import ClassAtlas.Proofs.ClassGraph.Roster
import Mathlib.Data.List.Induction

/-!
# What resolution wires

The loop over the references of staged classes adds stubs to the nodes while it looks names up in
them. `Wired` says what holds between any two references: stubs stand behind the staged classes, a
name has a node exactly when it is staged or referred to, and the edges are those of the references
so far. Growing nodes move no place, so the edges that are there keep their meaning.
-/

namespace ClassAtlas

namespace ClassDecl

theorem nodup_references (decl : ClassDecl) : decl.references.Nodup := nodup_eraseDups _

/-- No class refers to itself. -/
theorem target_ne_name {decl : ClassDecl} {reference : ClassReference}
    (h : reference ∈ decl.references) : reference.target ≠ decl.name := by
  rw [references, List.mem_eraseDups, List.mem_filter, decide_eq_true_iff] at h
  exact h.2

end ClassDecl

namespace Wiring

open Roster

/-! ## Nodes -/

/-- The nodes of classes with different names stand where their classes do. -/
theorem indexed_nodesOf {staged : List SourcedClass}
    (nodup : (staged.map SourcedClass.name).Nodup) :
    (nodesOf staged).Indexed Node.name ∧
      (nodesOf staged).items.toList = staged.map Node.imported := by
  induction staged using List.reverseRecOn with
  | nil => exact ⟨indexed_empty, rfl⟩
  | append_singleton front item ih =>
    rw [List.map_append, List.nodup_append] at nodup
    obtain ⟨indexed, nodes⟩ := ih nodup.1
    have step : nodesOf (front ++ [item]) = (nodesOf front).add item.name (.imported item) := by
      rw [nodesOf, List.foldl_append]
      rfl
    have fresh : (nodesOf front).place? item.name = none := by
      rw [indexed.place?_eq_none_iff]
      intro node inside same
      rw [← Array.mem_toList_iff, nodes] at inside
      obtain ⟨other, hother, rfl⟩ := List.mem_map.mp inside
      exact nodup.2.2 _ (List.mem_map_of_mem hother) _ (List.mem_singleton.mpr rfl) same
    rw [step]
    refine ⟨indexed.add (Node.imported item) fresh, ?_⟩
    rw [items_add, Array.toList_push, nodes, List.map_append]
    rfl

variable {nodes : Roster Node} {name : String}

theorem resolve_of_place {place : Nat} (found : nodes.place? name = some place) :
    resolve nodes name = (place, nodes) := by
  rw [resolve, found]

theorem resolve_of_none (missing : nodes.place? name = none) :
    resolve nodes name = (nodes.size, nodes.add name (.external name)) := by
  rw [resolve, missing]

theorem indexed_resolve (indexed : nodes.Indexed Node.name) :
    (resolve nodes name).2.Indexed Node.name := by
  cases found : nodes.place? name with
  | some place =>
    rw [resolve_of_place found]
    exact indexed
  | none =>
    rw [resolve_of_none found]
    exact indexed.add (Node.external name) found

/-- A resolved name has its place, and all others have theirs as before. -/
theorem place?_resolve (key : String) :
    (resolve nodes name).2.place? key =
      if name = key then some (resolve nodes name).1 else nodes.place? key := by
  cases found : nodes.place? name with
  | some place =>
    rw [resolve_of_place found]
    split
    next same => rw [← same, found]
    next => rfl
  | none => rw [resolve_of_none found, place?_add]

/-- What has a place keeps it. -/
theorem place?_resolve_of_place {key : String} {place : Nat} (hk : nodes.place? key = some place) :
    (resolve nodes name).2.place? key = some place := by
  rw [place?_resolve]
  split
  next same =>
    rw [← same] at hk
    rw [resolve_of_place hk]
  next => exact hk

variable (nodes name) in
theorem items_resolve : ∃ stubs : List String,
    (resolve nodes name).2.items.toList = nodes.items.toList ++ stubs.map Node.external := by
  cases found : nodes.place? name with
  | some place =>
    rw [resolve_of_place found]
    exact ⟨[], (List.append_nil _).symm⟩
  | none =>
    rw [resolve_of_none found, items_add, Array.toList_push]
    exact ⟨[name], rfl⟩

/-! ## References -/

/-- The edge for a reference of the class at a place, unless it leads back there. -/
def edgeOf? (nodes : Roster Node) (pair : Nat × ClassReference) : Option Edge :=
  (nodes.place? pair.2.target).bind fun target =>
    if target = pair.1 then none
    else some { origin := pair.1, target, kind := pair.2.kind }

theorem nodes_link (wiring : Wiring) (origin : Nat) (reference : ClassReference) :
    (wiring.link origin reference).nodes = (resolve wiring.nodes reference.target).2 := by
  by_cases loop : (resolve wiring.nodes reference.target).1 = origin <;> simp [link, loop]

theorem edges_link (wiring : Wiring) (origin : Nat) (reference : ClassReference) :
    (wiring.link origin reference).edges.toList = wiring.edges.toList ++
      (edgeOf? (wiring.link origin reference).nodes (origin, reference)).toList := by
  have found : (wiring.link origin reference).nodes.place? reference.target =
      some (resolve wiring.nodes reference.target).1 := by
    rw [nodes_link, place?_resolve, if_pos rfl]
  rw [edgeOf?, found, Option.bind_some]
  by_cases loop : (resolve wiring.nodes reference.target).1 = origin <;> simp [link, loop]

/-- The references that the loop follows, each with the place of its class. -/
def pairsOf (staged : List SourcedClass) : List (Nat × ClassReference) :=
  staged.zipIdx.flatMap fun (item, origin) => item.decl.references.map fun r => (origin, r)

/-- What holds when the loop has followed some references. -/
structure Wired (staged : List SourcedClass) (done : List (Nat × ClassReference))
    (wiring : Wiring) : Prop where
  indexed : wiring.nodes.Indexed Node.name
  nodes : ∃ stubs : List String,
    wiring.nodes.items.toList = staged.map Node.imported ++ stubs.map Node.external
  placed : ∀ name, wiring.nodes.place? name ≠ none ↔
    name ∈ staged.map SourcedClass.name ∨ ∃ pair ∈ done, pair.2.target = name
  edges : wiring.edges.toList = done.filterMap (edgeOf? wiring.nodes)

section Wired

variable {staged : List SourcedClass} {done : List (Nat × ClassReference)} {wiring : Wiring}

theorem wired_nodesOf (nodup : (staged.map SourcedClass.name).Nodup) :
    Wired staged [] { nodes := nodesOf staged } := by
  obtain ⟨indexed, nodes⟩ := indexed_nodesOf nodup
  refine ⟨indexed, ⟨[], by rw [nodes, List.map_nil, List.append_nil]⟩, fun name => ?_, rfl⟩
  rw [Ne, indexed.place?_eq_none_iff]
  simp only [← Array.mem_toList_iff, nodes, List.mem_map, not_forall]
  constructor
  · rintro ⟨node, ⟨item, inside, rfl⟩, same⟩
    exact .inl ⟨item, inside, not_not.mp same⟩
  · rintro (⟨item, inside, same⟩ | ⟨pair, inside, _⟩)
    · exact ⟨.imported item, ⟨item, inside, rfl⟩, not_not.mpr same⟩
    · cases inside

/-- Following one more reference keeps what holds. -/
theorem Wired.link (wired : Wired staged done wiring) (origin : Nat) (reference : ClassReference) :
    Wired staged (done ++ [(origin, reference)]) (wiring.link origin reference) := by
  have kept : done.filterMap (edgeOf? (wiring.link origin reference).nodes) =
      wiring.edges.toList := by
    rw [wired.edges]
    apply List.filterMap_congr
    intro pair inside
    obtain ⟨place, hp⟩ := Option.ne_none_iff_exists'.mp
      ((wired.placed pair.2.target).mpr (.inr ⟨pair, inside, rfl⟩))
    rw [edgeOf?, edgeOf?, nodes_link, place?_resolve_of_place hp, hp]
  refine ⟨?_, ?_, fun name => ?_, ?_⟩
  · rw [nodes_link]
    exact indexed_resolve wired.indexed
  · obtain ⟨stubs, nodes⟩ := wired.nodes
    obtain ⟨more, items⟩ := items_resolve wiring.nodes reference.target
    rw [nodes_link, items, nodes, List.append_assoc, ← List.map_append]
    exact ⟨stubs ++ more, rfl⟩
  · rw [nodes_link, place?_resolve]
    by_cases same : reference.target = name
    · simp [same]
    · rw [if_neg same, wired.placed]
      simp [same]
  · rw [List.filterMap_append, kept, edges_link]
    cases edge : edgeOf? (wiring.link origin reference).nodes (origin, reference) <;> simp [edge]

theorem wired_foldl (wired : Wired staged done wiring) (more : List (Nat × ClassReference)) :
    Wired staged (done ++ more) (more.foldl (fun w pair => w.link pair.1 pair.2) wiring) := by
  induction more generalizing done wiring with
  | nil => rwa [List.append_nil]
  | cons pair more ih =>
    have all := ih (wired.link pair.1 pair.2)
    rwa [List.append_assoc] at all

/-- What holds when the loop is over: all references of all staged classes are followed. -/
theorem wired_ofStaged (nodup : (staged.map SourcedClass.name).Nodup) :
    Wired staged (pairsOf staged) (ofStaged staged) := by
  have run := wired_foldl (wired_nodesOf nodup) (pairsOf staged)
  rw [List.nil_append] at run
  have same : ofStaged staged = (pairsOf staged).foldl (fun w pair => w.link pair.1 pair.2)
      { nodes := nodesOf staged } := by
    rw [ofStaged, pairsOf, List.foldl_flatMap]
    simp only [linkAll, List.foldl_map]
  rwa [same]

end Wired

end Wiring

end ClassAtlas
