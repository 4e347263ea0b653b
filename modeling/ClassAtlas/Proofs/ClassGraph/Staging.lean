import ClassAtlas.ClassGraph
import ClassAtlas.Proofs.ClassGraph.Firsts
import ClassAtlas.Proofs.ClassGraph.Roster

/-!
# What staging keeps

Of classes that are staged one by one, the first of each name is kept, and each later one gives the
error that names both. The roster of what is kept is indexed at every step.
-/

namespace ClassAtlas.Staging

open Roster

/-- The classes of which one with the same name stands in front, each behind the first such. -/
def clashes (items : List SourcedClass) : List (SourcedClass × SourcedClass) :=
  (withFront items).filterMap fun p => (p.1.find? (·.name = p.2.name)).map fun kept => (kept, p.2)

/-- The error that the second of two classes of one name gives. -/
def clashError (clash : SourcedClass × SourcedClass) : ImportError :=
  .duplicateClass clash.2.name clash.1.sourceText clash.2.sourceText

theorem clashes_append_singleton (front : List SourcedClass) (item : SourcedClass) :
    clashes (front ++ [item]) = clashes front ++
      ((front.find? (·.name = item.name)).map fun kept => (kept, item)).toList := by
  rw [clashes, withFront_append_singleton, List.filterMap_append]
  cases found : front.find? (·.name = item.name) <;> simp [clashes, found]

/-- What is ignored stands in the order in which it came. -/
theorem clashes_sublist (items : List SourcedClass) :
    ((clashes items).map Prod.snd).Sublist items := by
  induction items using List.reverseRecOn with
  | nil => exact .slnil
  | append_singleton front item ih =>
    rw [clashes_append_singleton, List.map_append]
    refine ih.append ?_
    cases front.find? (·.name = item.name) with
    | some kept => exact .refl _
    | none => exact List.nil_sublist _

/-- Every class is kept or ignored. -/
theorem length_firsts_add_length_clashes (items : List SourcedClass) :
    (firsts SourcedClass.name items).length + (clashes items).length = items.length := by
  induction items using List.reverseRecOn with
  | nil => rfl
  | append_singleton front item ih =>
    rw [clashes_append_singleton, List.length_append, List.length_append]
    cases found : front.find? (·.name = item.name) with
    | some kept =>
      rw [firsts_append_of_find?_eq_some _ found]
      simp
      omega
    | none =>
      rw [firsts_append_of_find?_eq_none _ found]
      simp
      omega

/-- The staged classes are the first of each name among those that came. -/
structure Holds (items : List SourcedClass) (staged : Staging) : Prop where
  indexed : staged.Indexed SourcedClass.name
  kept : staged.items.toList = firsts SourcedClass.name items

theorem holds_nil : Holds [] {} := ⟨indexed_empty, rfl⟩

variable {items : List SourcedClass} {staged : Staging}

/-- The class that keeps a name is the first that came with it. -/
theorem Holds.find?_eq (h : Holds items staged) (name : String) :
    staged.find? name = items.find? (·.name = name) := by
  apply Option.ext
  intro item
  rw [h.indexed.find?_eq_some_iff, ← Array.mem_toList_iff, h.kept, mem_firsts]
  constructor
  · rintro ⟨first, rfl⟩
    exact first
  · intro first
    have named : item.name = name := by simpa using List.find?_some first
    subst named
    exact ⟨first, rfl⟩

theorem Holds.stage (h : Holds items staged) (item : SourcedClass) :
    Holds (items ++ [item]) (staged.stage item).1 ∧
      (clashes (items ++ [item])).map clashError =
        (clashes items).map clashError ++ (staged.stage item).2.toList := by
  rw [clashes_append_singleton, List.map_append, Staging.stage, h.find?_eq]
  cases found : items.find? (·.name = item.name) with
  | some kept =>
    refine ⟨⟨h.indexed, ?_⟩, rfl⟩
    rw [firsts_append_of_find?_eq_some _ found]
    exact h.kept
  | none =>
    have strange : staged.place? item.name = none := by
      rw [h.indexed.place?_eq_none_iff, ← h.indexed.find?_eq_none_iff, h.find?_eq, found]
    refine ⟨⟨h.indexed.add item strange, ?_⟩, rfl⟩
    rw [firsts_append_of_find?_eq_none _ found, items_add, Array.toList_push, h.kept]

theorem Holds.stageAll (h : Holds items staged) (more : List SourcedClass) :
    Holds (items ++ more) (staged.stageAll more).1 ∧
      (clashes (items ++ more)).map clashError =
        (clashes items).map clashError ++ (staged.stageAll more).2 := by
  induction more generalizing items staged with
  | nil => simpa [Staging.stageAll] using h
  | cons item more ih =>
    obtain ⟨holds, errors⟩ := h.stage item
    obtain ⟨all, allErrors⟩ := ih holds
    rw [List.append_assoc] at all allErrors
    refine ⟨all, ?_⟩
    rw [errors, List.append_assoc] at allErrors
    exact allErrors

theorem holds_stageAll (items : List SourcedClass) : Holds items (stageAll {} items).1 :=
  (holds_nil.stageAll items).1

/-- Exactly the classes that are not the first of their name are reported, in order. -/
theorem stageAll_errors (items : List SourcedClass) :
    (stageAll {} items).2 = (clashes items).map clashError :=
  (holds_nil.stageAll items).2.symm

end ClassAtlas.Staging
