import Mathlib.Data.List.Induction
import Mathlib.Data.List.Nodup

/-!
# First items of their kind

Of the items of a list that agree in a key, the first is kept. What is said of an item here is said
relative to the items in front of it. Items whose keys are all different are strictly ordered by
sorting (`pairwise_lt_mergeSort`).
-/

namespace ClassAtlas

variable {α β : Type}

/-- Every item with the items in front of it. -/
def withFront (items : List α) : List (List α × α) :=
  items.zipIdx.map fun (item, n) => (items.take n, item)

theorem withFront_append_singleton (front : List α) (item : α) :
    withFront (front ++ [item]) = withFront front ++ [(front, item)] := by
  have inside : ∀ p ∈ front.zipIdx, ((front ++ [item]).take p.2, p.1) = (front.take p.2, p.1) := by
    intro p hp
    have hn : p.2 < front.length := List.snd_lt_of_mem_zipIdx hp
    rw [List.take_append_of_le_length (Nat.le_of_lt hn)]
  rw [withFront, List.zipIdx_append, List.map_append, List.map_congr_left inside]
  simp [withFront]

section Firsts

variable [DecidableEq β] (key : α → β)

/-- The items whose key no item in front of them has. -/
def firsts (items : List α) : List α :=
  ((withFront items).filter fun p => ∀ other ∈ p.1, key other ≠ key p.2).map Prod.snd

theorem firsts_append_singleton (front : List α) (item : α) :
    firsts key (front ++ [item]) =
      if ∀ other ∈ front, key other ≠ key item then firsts key front ++ [item]
      else firsts key front := by
  rw [firsts, withFront_append_singleton, List.filter_append, List.map_append]
  by_cases fresh : ∀ other ∈ front, key other ≠ key item
  · rw [if_pos fresh, List.filter_cons_of_pos (by simpa using fresh)]
    rfl
  · rw [if_neg fresh, List.filter_cons_of_neg (by simpa using fresh)]
    exact List.append_nil _

/-- An item whose key is there already is not kept, -/
theorem firsts_append_of_find?_eq_some {front : List α} {item kept : α}
    (found : front.find? (key · = key item) = some kept) :
    firsts key (front ++ [item]) = firsts key front := by
  have inside := List.mem_of_find?_eq_some found
  have same : key kept = key item := by simpa using List.find?_some found
  rw [firsts_append_singleton, if_neg fun fresh => fresh kept inside same]

/-- and an item with a new key is. -/
theorem firsts_append_of_find?_eq_none {front : List α} {item : α}
    (found : front.find? (key · = key item) = none) :
    firsts key (front ++ [item]) = firsts key front ++ [item] := by
  rw [firsts_append_singleton, if_pos (by simpa using found)]

/-- An item is kept exactly when it is the first with its key. -/
theorem mem_firsts {items : List α} {item : α} :
    item ∈ firsts key items ↔ items.find? (key · = key item) = some item := by
  induction items using List.reverseRecOn with
  | nil => simp [firsts, withFront]
  | append_singleton front last ih =>
    rw [firsts_append_singleton, List.find?_append]
    by_cases fresh : ∀ other ∈ front, key other ≠ key last
    · rw [if_pos fresh, List.mem_append, ih, List.mem_singleton]
      constructor
      · rintro (found | rfl)
        · rw [found, Option.some_or]
        · have missing : front.find? (key · = key item) = none := by simpa using fresh
          simp [missing]
      · intro found
        cases first : front.find? (key · = key item) with
        | some other =>
          rw [first, Option.some_or] at found
          exact .inl found
        | none =>
          rw [first, Option.none_or] at found
          exact .inr (List.mem_singleton.mp (List.mem_of_find?_eq_some found))
    · rw [if_neg fresh, ih]
      constructor
      · intro found
        rw [found, Option.some_or]
      · intro found
        cases first : front.find? (key · = key item) with
        | some other => rwa [first, Option.some_or] at found
        | none =>
          rw [first, Option.none_or] at found
          have same : item = last := List.mem_singleton.mp (List.mem_of_find?_eq_some found)
          subst same
          exact absurd (by simpa using first) fresh

theorem firsts_sublist (items : List α) : (firsts key items).Sublist items := by
  induction items using List.reverseRecOn with
  | nil => exact List.Sublist.refl _
  | append_singleton front last ih =>
    rw [firsts_append_singleton]
    split
    · exact ih.append (List.Sublist.refl [last])
    · exact ih.trans (List.sublist_append_left front [last])

theorem mem_of_mem_firsts {items : List α} {item : α} (h : item ∈ firsts key items) :
    item ∈ items :=
  List.mem_of_find?_eq_some ((mem_firsts key).mp h)

/-- For every item there is one that is kept. -/
theorem exists_mem_firsts {items : List α} {item : α} (h : item ∈ items) :
    ∃ first ∈ firsts key items, key first = key item := by
  cases found : items.find? (key · = key item) with
  | none =>
    have other := List.find?_eq_none.mp found item h
    exact absurd (decide_eq_true rfl) other
  | some first =>
    have same : key first = key item := by simpa using List.find?_some found
    refine ⟨first, (mem_firsts key).mpr ?_, same⟩
    rw [same]
    exact found

/-- No key is kept twice. -/
theorem nodup_map_firsts (items : List α) : ((firsts key items).map key).Nodup := by
  induction items using List.reverseRecOn with
  | nil => exact List.nodup_nil
  | append_singleton front last ih =>
    rw [firsts_append_singleton]
    split
    next fresh =>
      rw [List.map_append, List.map_singleton, List.nodup_append]
      refine ⟨ih, List.nodup_singleton _, ?_⟩
      intro one hone other hother same
      obtain ⟨item, kept, rfl⟩ := List.mem_map.mp hone
      rw [List.mem_singleton] at hother
      exact fresh item (mem_of_mem_firsts key kept) (same.trans hother)
    next => exact ih

/-- Where no key is repeated, all is kept. -/
theorem firsts_eq_self {items : List α} (h : (items.map key).Nodup) : firsts key items = items := by
  induction items using List.reverseRecOn with
  | nil => rfl
  | append_singleton front last ih =>
    rw [List.map_append, List.map_singleton, List.nodup_append] at h
    obtain ⟨before, _, apart⟩ := h
    have fresh : ∀ other ∈ front, key other ≠ key last := fun other inside =>
      apart _ (List.mem_map_of_mem inside) _ (List.mem_singleton_self _)
    rw [firsts_append_singleton, if_pos fresh, ih before]

/-- What depends on the key alone may be asked before or after. -/
theorem firsts_filter {p : α → Bool} (byKey : ∀ a b, key a = key b → p a = p b)
    (items : List α) : firsts key (items.filter p) = (firsts key items).filter p := by
  induction items using List.reverseRecOn with
  | nil => rfl
  | append_singleton front last ih =>
    rw [List.filter_append, firsts_append_singleton]
    by_cases holds : p last = true
    · rw [List.filter_singleton, holds, cond_true, firsts_append_singleton, ih]
      have same : (∀ other ∈ front.filter p, key other ≠ key last) ↔
          ∀ other ∈ front, key other ≠ key last := by
        constructor
        · intro fresh other inside equal
          have holds' : p other = true := (byKey other last equal).trans holds
          exact fresh other (List.mem_filter.mpr ⟨inside, holds'⟩) equal
        · exact fun fresh other inside => fresh other (List.mem_of_mem_filter inside)
      simp only [same]
      split
      · rw [List.filter_append, List.filter_singleton, holds, cond_true]
      · rfl
    · rw [List.filter_singleton, Bool.eq_false_iff.mpr holds, cond_false, List.append_nil, ih]
      split
      · rw [List.filter_append, List.filter_singleton, Bool.eq_false_iff.mpr holds, cond_false,
          List.append_nil]
      · rfl

/-- The first item is kept, and of the others what is left without its key. -/
theorem firsts_cons (first : α) (rest : List α) :
    firsts key (first :: rest) =
      first :: firsts key (rest.filter fun other => key other ≠ key first) := by
  induction rest using List.reverseRecOn with
  | nil => simp [firsts, withFront]
  | append_singleton front last ih =>
    rw [← List.cons_append, firsts_append_singleton, ih, List.filter_append]
    by_cases fresh : key last ≠ key first
    · have known : (∀ other ∈ first :: front, key other ≠ key last) ↔
          ∀ other ∈ front.filter fun other => key other ≠ key first, key other ≠ key last := by
        rw [List.forall_mem_cons]
        constructor
        · exact fun ⟨_, others⟩ other inside => others other (List.mem_of_mem_filter inside)
        · intro others
          refine ⟨fresh.symm, fun other inside same => ?_⟩
          have kept : key other ≠ key first := fun equal => fresh (same.symm.trans equal)
          exact others other (List.mem_filter.mpr ⟨inside, decide_eq_true kept⟩) same
      rw [List.filter_singleton, decide_eq_true fresh, cond_true, firsts_append_singleton]
      simp only [known]
      split
      · rw [List.cons_append]
      · rfl
    · rw [if_neg fun others => fresh (others first List.mem_cons_self).symm,
        List.filter_singleton, decide_eq_false fresh, cond_false, List.append_nil]

/-- Dropping what agrees with an item in front leaves the first items. -/
theorem eraseDupsBy_eq_firsts (items : List α) :
    (items.eraseDupsBy fun a b => key a = key b) = firsts key items := by
  match items with
  | [] => simp [firsts, withFront]
  | first :: rest =>
    rw [List.eraseDupsBy_cons, firsts_cons, eraseDupsBy_eq_firsts]
    simp only [decide_eq_false_iff_not, ne_eq]
termination_by items.length
decreasing_by exact Nat.lt_succ_of_le (List.length_filter_le _ _)

/-- Items without repetitions are the first ones of their own. -/
theorem nodup_eraseDups [DecidableEq α] (items : List α) : items.eraseDups.Nodup := by
  have own : items.eraseDups = firsts id items := by
    rw [← eraseDupsBy_eq_firsts]
    rfl
  have distinct := nodup_map_firsts id items
  rwa [List.map_id, ← own] at distinct

end Firsts

/-! ## Sorting by a key -/

section Sorting

variable [LE β] [DecidableLE β] [Std.IsLinearPreorder β]

theorem decide_le_trans {a b c : β} (h : decide (a ≤ b) = true) (h' : decide (b ≤ c) = true) :
    decide (a ≤ c) = true :=
  decide_eq_true (Std.le_trans (of_decide_eq_true h) (of_decide_eq_true h'))

theorem decide_le_total (a b : β) : (decide (a ≤ b) || decide (b ≤ a)) = true := by
  rw [Bool.or_eq_true, decide_eq_true_iff, decide_eq_true_iff]
  exact Std.le_total

theorem pairwise_le_mergeSort (key : α → β) (items : List α) :
    (items.mergeSort fun a b => decide (key a ≤ key b)).Pairwise fun a b => key a ≤ key b :=
  (List.pairwise_mergeSort (fun _ _ _ => decide_le_trans) (fun _ _ => decide_le_total _ _)
    items).imp of_decide_eq_true

/-- Where no key is repeated, the order is strict. -/
theorem pairwise_lt_mergeSort [LT β] [Std.LawfulOrderLT β] [Std.IsPartialOrder β] (key : α → β)
    {items : List α} (h : (items.map key).Nodup) :
    (items.mergeSort fun a b => decide (key a ≤ key b)).Pairwise fun a b => key a < key b := by
  have apart : (items.mergeSort fun a b => decide (key a ≤ key b)).Pairwise
      fun a b => key a ≠ key b :=
    List.pairwise_map.mp (((List.mergeSort_perm items _).map key).nodup_iff.mpr h)
  exact ((pairwise_le_mergeSort key items).and apart).imp fun ⟨le, ne⟩ => Std.lt_of_le_of_ne le ne

end Sorting

end ClassAtlas
