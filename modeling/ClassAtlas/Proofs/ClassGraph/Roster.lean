import ClassAtlas.ClassGraph.Roster
import Mathlib.Data.List.Nodup
import Std.Data.TreeMap.Lemmas

/-!
# Rosters whose places are right

In an indexed roster a name has a place exactly when the thing there bears it. An empty roster is
indexed, and stays so when things are added whose names are new.
-/

namespace ClassAtlas.Roster

variable {α : Type}

theorem place?_empty (key : String) : ({} : Roster α).place? key = none :=
  Std.TreeMap.getElem?_emptyc

theorem place?_add (roster : Roster α) (name key : String) (item : α) :
    (roster.add name item).place? key =
      if name = key then some roster.size else roster.place? key := by
  rw [place?, add, Std.TreeMap.getElem?_insert]
  simp [place?]

theorem items_add (roster : Roster α) (name : String) (item : α) :
    (roster.add name item).items = roster.items.push item := rfl

/-- The places are right: a name has a place exactly when the thing there bears it. -/
def Indexed (name : α → String) (roster : Roster α) : Prop :=
  ∀ key place, roster.place? key = some place ↔ (roster.items[place]?).map name = some key

section Indexed

variable {name : α → String} {roster : Roster α}

theorem indexed_empty : Indexed name {} := by
  intro key place
  rw [place?_empty]
  simp

theorem Indexed.lt_size (indexed : Indexed name roster) {key : String} {place : Nat}
    (h : roster.place? key = some place) : place < roster.size := by
  obtain ⟨item, there, _⟩ := Option.map_eq_some_iff.mp ((indexed key place).mp h)
  exact (Array.getElem?_eq_some_iff.mp there).1

/-- A thing with a new name gets the next place; the other places stay right. -/
theorem Indexed.add (indexed : Indexed name roster) (item : α)
    (fresh : roster.place? (name item) = none) : Indexed name (roster.add (name item) item) := by
  intro key place
  rw [place?_add, items_add, Array.getElem?_push]
  by_cases last : place = roster.items.size
  · rw [if_pos last, Option.map_some, Option.some_inj]
    by_cases same : name item = key
    · simp [same, last, size]
    · rw [if_neg same]
      constructor
      · intro h
        have inside := indexed.lt_size h
        rw [size] at inside
        omega
      · exact fun h => absurd h same
  · rw [if_neg last, ← indexed key place]
    by_cases same : name item = key
    · subst same
      rw [if_pos rfl, fresh]
      constructor
      · intro h
        exact absurd (Option.some_inj.mp h).symm last
      · exact nofun
    · rw [if_neg same]

theorem Indexed.place?_eq_none_iff (indexed : Indexed name roster) {key : String} :
    roster.place? key = none ↔ ∀ item ∈ roster.items, name item ≠ key := by
  constructor
  · intro missing item inside same
    obtain ⟨place, there⟩ := Array.mem_iff_getElem?.mp inside
    have found : roster.place? key = some place :=
      (indexed key place).mpr (by rw [there, Option.map_some, same])
    rw [missing] at found
    cases found
  · intro strange
    cases found : roster.place? key with
    | none => rfl
    | some place =>
      obtain ⟨item, there, same⟩ := Option.map_eq_some_iff.mp ((indexed key place).mp found)
      exact absurd same (strange item (Array.mem_of_getElem? there))

/-- No two places hold things of one name. -/
theorem Indexed.place_unique (indexed : Indexed name roster) {first second : Nat} {a b : α}
    (ha : roster.items[first]? = some a) (hb : roster.items[second]? = some b)
    (same : name a = name b) : first = second := by
  have one := (indexed (name a) first).mpr (by rw [ha, Option.map_some])
  have other := (indexed (name a) second).mpr (by rw [hb, Option.map_some, same])
  rw [one] at other
  exact Option.some_inj.mp other

theorem Indexed.nodup_names (indexed : Indexed name roster) :
    (roster.items.toList.map name).Nodup := by
  rw [List.nodup_iff_getElem?_ne_getElem?]
  intro first second before inside same
  rw [List.length_map, Array.length_toList] at inside
  have ha : roster.items[first]? = some roster.items[first] :=
    Array.getElem?_eq_getElem (Nat.lt_trans before inside)
  have hb : roster.items[second]? = some roster.items[second] := Array.getElem?_eq_getElem inside
  simp only [List.getElem?_map, Array.getElem?_toList, ha, hb, Option.map_some,
    Option.some_inj] at same
  exact absurd (indexed.place_unique ha hb same) (Nat.ne_of_lt before)

/-- What is found under a name is the thing that bears it. -/
theorem Indexed.find?_eq_some_iff (indexed : Indexed name roster) {key : String} {item : α} :
    roster.find? key = some item ↔ item ∈ roster.items ∧ name item = key := by
  rw [find?, Option.bind_eq_some_iff]
  constructor
  · rintro ⟨place, found, there⟩
    have named := (indexed key place).mp found
    rw [there, Option.map_some, Option.some_inj] at named
    exact ⟨Array.mem_of_getElem? there, named⟩
  · rintro ⟨inside, named⟩
    obtain ⟨place, there⟩ := Array.mem_iff_getElem?.mp inside
    refine ⟨place, (indexed key place).mpr ?_, there⟩
    rw [there, Option.map_some, named]

theorem Indexed.find?_eq_none_iff (indexed : Indexed name roster) {key : String} :
    roster.find? key = none ↔ ∀ item ∈ roster.items, name item ≠ key := by
  constructor
  · intro missing item inside same
    rw [(indexed.find?_eq_some_iff).mpr ⟨inside, same⟩] at missing
    cases missing
  · intro strange
    rw [find?, indexed.place?_eq_none_iff.mpr strange]
    rfl

end Indexed

end ClassAtlas.Roster
