import Mathlib.Data.List.Basic
import Mathlib.Data.List.Lex
import Mathlib.Order.Basic

/-!
# Lists in the order of places

A place in nested data is the list of numbers that leads to it, so the order of reading is the
lexicographic order of places. `Lists At items` says that a list is what `At` says stands at places,
in their order; lists are put together from parts as the data is.

* `Lists.above`, `lists_row`: parts below different numbers stand one behind the other;
* `Lists.pairwise_eraseDups`: without repetitions a list is in the order of first occurrence.
-/

namespace ClassAtlas

/-- The numbers that lead to a part of nested data. -/
abbrev Place := List Nat

variable {α β ι : Type}

/-- The items are those that stand at places, in the order of the places. -/
def Lists (At : Place → α → Prop) (items : List α) : Prop :=
  ∃ marked : List (Place × α), marked.map Prod.snd = items ∧
    marked.Pairwise (fun one other => one.1 < other.1) ∧
    ∀ place item, (place, item) ∈ marked ↔ At place item

/-- The same of a list whose places all start with this number or a later one. -/
structure ListsFrom (start : Nat) (At : Place → α → Prop) (items : List α) : Prop where
  lists : Lists At items
  starts : ∀ place item, At place item → ∃ n rest, place = n :: rest ∧ start ≤ n

variable {At Other : Place → α → Prop} {items others : List α} {start : Nat}

theorem Lists.congr (h : Lists At items) (same : ∀ place item, Other place item ↔ At place item) :
    Lists Other items := by
  obtain ⟨marked, listed, ascending, all⟩ := h
  exact ⟨marked, listed, ascending, fun place item => (all place item).trans (same place item).symm⟩

theorem Lists.mem_iff (h : Lists At items) {item : α} :
    item ∈ items ↔ ∃ place, At place item := by
  obtain ⟨marked, rfl, _, all⟩ := h
  rw [List.mem_map]
  constructor
  · rintro ⟨⟨place, other⟩, inside, rfl⟩
    exact ⟨place, (all _ _).mp inside⟩
  · rintro ⟨place, there⟩
    exact ⟨(place, item), (all _ _).mpr there, rfl⟩

/-! ## Putting lists together -/

/-- An item that may be missing stands at the place itself. -/
theorem lists_option (found : Option α) :
    Lists (fun place item => place = [] ∧ found = some item) found.toList := by
  cases found with
  | none => exact ⟨[], rfl, List.Pairwise.nil, by simp⟩
  | some item =>
    refine ⟨[([], item)], rfl, List.pairwise_singleton _ _, fun place other => ?_⟩
    simp [eq_comm]

theorem Lists.map (h : Lists At items) (f : α → β) :
    Lists (fun place item => ∃ source, At place source ∧ f source = item) (items.map f) := by
  obtain ⟨marked, rfl, ascending, all⟩ := h
  refine ⟨marked.map fun p => (p.1, f p.2), ?_, ?_, fun place item => ?_⟩
  · simp only [List.map_map, Function.comp_def]
  · rw [List.pairwise_map]
    exact ascending
  · simp only [List.mem_map, Prod.mk.injEq, Prod.exists, ← all]
    constructor
    · rintro ⟨_, source, inside, rfl, rfl⟩
      exact ⟨source, inside, rfl⟩
    · rintro ⟨source, inside, rfl⟩
      exact ⟨place, source, inside, rfl, rfl⟩

theorem Lists.filter (h : Lists At items) (keeps : α → Bool) :
    Lists (fun place item => At place item ∧ keeps item = true) (items.filter keeps) := by
  obtain ⟨marked, rfl, ascending, all⟩ := h
  refine ⟨marked.filter fun p => keeps p.2, ?_, ascending.filter _, fun place item => ?_⟩
  · rw [List.filter_map]
    rfl
  · rw [List.mem_filter, all]

theorem listsFrom_nil (start : Nat) : ListsFrom start (fun _ (_ : α) => False) [] where
  lists := ⟨[], rfl, List.Pairwise.nil, by simp⟩
  starts := fun _ _ => False.elim

/-- What stands below a number, and behind it what stands below later ones. -/
theorem Lists.above (first : Lists At items) (behind : ListsFrom (start + 1) Other others) :
    ListsFrom start
      (fun place item => (∃ rest, place = start :: rest ∧ At rest item) ∨ Other place item)
      (items ++ others) := by
  obtain ⟨front, rfl, ascendingFront, allFront⟩ := first
  obtain ⟨⟨back, rfl, ascendingBack, allBack⟩, later⟩ := behind
  refine ⟨⟨(front.map fun p => (start :: p.1, p.2)) ++ back, ?_, ?_, fun place item => ?_⟩, ?_⟩
  · simp only [List.map_append, List.map_map, Function.comp_def]
  · rw [List.pairwise_append, List.pairwise_map]
    refine ⟨ascendingFront.imp fun less => List.cons_lt_cons_self.mpr less, ascendingBack, ?_⟩
    intro one inFront other inBack
    obtain ⟨p, _, rfl⟩ := List.mem_map.mp inFront
    obtain ⟨n, rest, named, less⟩ := later _ _ ((allBack _ _).mp inBack)
    rw [named]
    exact List.Lex.rel less
  · simp only [List.mem_append, List.mem_map, Prod.mk.injEq, Prod.exists, allBack, ← allFront]
    constructor
    · rintro (⟨rest, _, inside, rfl, rfl⟩ | there)
      · exact .inl ⟨rest, rfl, inside⟩
      · exact .inr there
    · rintro (⟨rest, rfl, inside⟩ | there)
      · exact .inl ⟨rest, item, inside, rfl, rfl⟩
      · exact .inr there
  · rintro place item (⟨rest, rfl, _⟩ | there)
    · exact ⟨start, rest, rfl, Nat.le_refl start⟩
    · obtain ⟨n, rest, named, less⟩ := later _ _ there
      exact ⟨n, rest, named, Nat.le_of_succ_le less⟩

/-- What stands below a number, with nothing behind it. -/
theorem Lists.last (h : Lists At items) (start : Nat) :
    ListsFrom start (fun place item => ∃ rest, place = start :: rest ∧ At rest item) items := by
  have whole := h.above (listsFrom_nil (start + 1))
  rw [List.append_nil] at whole
  simp only [or_false] at whole
  exact whole

/-- What stands in the parts of a row, the parts being numbered from `start` on. -/
theorem listsFrom_row {AtPart : ι → Place → α → Prop} {list : ι → List α} (parts : List ι)
    (h : ∀ part ∈ parts, Lists (AtPart part) (list part)) (start : Nat) :
    ListsFrom start
      (fun place item => ∃ i part rest, parts[i]? = some part ∧ place = (start + i) :: rest ∧
        AtPart part rest item) (parts.flatMap list) := by
  induction parts generalizing start with
  | nil =>
    refine ⟨(listsFrom_nil start).lists.congr ?_, ?_⟩
    · simp
    · simp
  | cons first parts ih =>
    have row := ih (fun part inside => h part (List.mem_cons_of_mem first inside)) (start + 1)
    have whole := (h first List.mem_cons_self).above row
    -- A part of the row is the first one, or one of the others, which are numbered one further.
    have same : ∀ place item,
        (∃ i part rest, (first :: parts)[i]? = some part ∧ place = (start + i) :: rest ∧
          AtPart part rest item) ↔
        (∃ rest, place = start :: rest ∧ AtPart first rest item) ∨
          ∃ i part rest, parts[i]? = some part ∧ place = (start + 1 + i) :: rest ∧
            AtPart part rest item := by
      intro place item
      constructor
      · rintro ⟨i, part, rest, there, rfl, inside⟩
        cases i with
        | zero =>
          cases there
          exact .inl ⟨rest, rfl, inside⟩
        | succ i =>
          refine .inr ⟨i, part, rest, there, ?_, inside⟩
          rw [Nat.add_right_comm, Nat.add_assoc]
      · rintro (⟨rest, rfl, inside⟩ | ⟨i, part, rest, there, rfl, inside⟩)
        · exact ⟨0, first, rest, rfl, rfl, inside⟩
        · refine ⟨i + 1, part, rest, there, ?_, inside⟩
          rw [Nat.add_right_comm, Nat.add_assoc]
    exact ⟨whole.lists.congr same, fun place item there =>
      whole.starts place item ((same place item).mp there)⟩

theorem lists_row {AtPart : ι → Place → α → Prop} {list : ι → List α} {parts : List ι}
    (h : ∀ part ∈ parts, Lists (AtPart part) (list part)) :
    Lists (fun place item => ∃ i part rest, parts[i]? = some part ∧ place = i :: rest ∧
      AtPart part rest item) (parts.flatMap list) := by
  refine (listsFrom_row parts h 0).lists.congr fun place item => ?_
  simp only [Nat.zero_add]

/-- The items of a list stand at their numbers. -/
theorem lists_items (items : List α) :
    Lists (fun place item => ∃ i, items[i]? = some item ∧ place = [i]) items := by
  have single := lists_row fun item (_ : item ∈ items) => lists_option (some item)
  have self : (items.flatMap fun item => (some item).toList) = items := by simp
  rw [self] at single
  refine single.congr fun place item => ?_
  constructor
  · rintro ⟨i, there, rfl⟩
    exact ⟨i, item, [], there, rfl, rfl, rfl⟩
  · rintro ⟨i, _, _, there, rfl, rfl, ⟨⟩⟩
    exact ⟨i, there, rfl⟩

/-- What stands in a part that may be missing. -/
theorem lists_part {AtPart : ι → Place → α → Prop} {list : ι → List α} {found : Option ι}
    (h : ∀ part, found = some part → Lists (AtPart part) (list part)) :
    Lists (fun place item => ∃ part, found = some part ∧ AtPart part place item)
      (found.toList.flatMap list) := by
  cases found with
  | none =>
    refine (listsFrom_nil 0).lists.congr ?_
    simp
  | some part =>
    have single : (some part).toList.flatMap list = list part := by simp
    rw [single]
    refine (h part rfl).congr ?_
    simp

/-! ## First occurrences -/

/-- One item stands at a place in front of all places of the other. -/
def StandsBefore (At : Place → α → Prop) (item other : α) : Prop :=
  ∃ place, At place item ∧ ∀ place', At place' other → place < place'

theorem not_standsBefore_self (item : α) : ¬ StandsBefore At item item := by
  rintro ⟨place, there, before⟩
  exact lt_irrefl place (before place there)

/-- Of a list in the order of places, the items are left in the order of their first places. -/
theorem Lists.pairwise_eraseDups [BEq α] [LawfulBEq α] {Stands : Place → α → Prop}
    {listed : List α} (h : Lists Stands listed) :
    listed.eraseDups.Pairwise (StandsBefore Stands) := by
  -- The first item stands before all others; what is left of the list without it has the same
  -- places as before.
  match listed, h with
  | [], _ => exact List.Pairwise.nil
  | first :: rest, h =>
    rw [List.eraseDups_cons, List.pairwise_cons]
    constructor
    · intro other inside
      have kept := List.mem_filter.mp (List.mem_eraseDups.mp inside)
      have different : other ≠ first := by simpa using kept.2
      obtain ⟨marked, told, ascending, all⟩ := h
      obtain ⟨⟨place, item⟩, back, rfl, rfl, rfl⟩ := List.map_eq_cons_iff.mp told
      refine ⟨place, (all _ _).mp List.mem_cons_self, fun place' there => ?_⟩
      rcases List.mem_cons.mp ((all _ _).mpr there) with same | behind
      · exact absurd (Prod.mk.inj same).2 different
      · exact (List.pairwise_cons.mp ascending).1 _ behind
    · have others : (first :: rest).filter (fun item => !item == first) =
          rest.filter fun item => !item == first := List.filter_cons_of_neg (by simp)
      have left := h.filter fun item => !item == first
      rw [others] at left
      refine left.pairwise_eraseDups.imp_of_mem fun {one other} _ inside before => ?_
      obtain ⟨place, there, behind⟩ := before
      have kept := (List.mem_filter.mp (List.mem_eraseDups.mp inside)).2
      exact ⟨place, there.1, fun place' there' => behind place' ⟨there', kept⟩⟩
termination_by listed.length
decreasing_by
  have := List.length_filter_le (fun item => !item == first) rest
  simp only [List.length_cons]
  omega

end ClassAtlas
