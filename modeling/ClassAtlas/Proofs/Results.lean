import Mathlib.Data.List.Forall2

/-!
# Results that may be errors

What has to be given for a result to be given: for results one after the other (`ok_of_bind`), for
what is made of a result (`ok_of_map`), and for the results of a list (`mapM_eq_ok_iff`).
-/

namespace ClassAtlas

variable {ε α β : Type}

/-! ## One result -/

section Single

variable {result : Except ε α}

/-- What comes second comes after what came first. -/
theorem ok_of_bind {next : α → Except ε β} {b : β} (h : result >>= next = .ok b) :
    ∃ a, result = .ok a ∧ next a = .ok b := by
  cases result with
  | error e => cases h
  | ok a => exact ⟨a, rfl, h⟩

theorem bind_of_eq_ok {a : α} (h : result = .ok a) (next : α → Except ε β) :
    result >>= next = next a := by
  subst h
  rfl

theorem bind_eq_error_iff {next : α → Except ε β} {error : ε} :
    result >>= next = .error error ↔
      result = .error error ∨ ∃ a, result = .ok a ∧ next a = .error error := by
  cases result <;> simp [bind, Except.bind]

theorem ok_of_map {f : α → β} {b : β} (h : result.map f = .ok b) :
    ∃ a, result = .ok a ∧ f a = b := by
  cases result with
  | error e => cases h
  | ok a => exact ⟨a, rfl, Except.ok.inj h⟩

theorem error_of_map {f : α → β} {error : ε} (h : result.map f = .error error) :
    result = .error error := by
  cases result with
  | error e =>
    cases h
    rfl
  | ok a => cases h

theorem eq_ok_of_toOption {a : α} (h : result.toOption = some a) : result = .ok a := by
  cases result with
  | error => cases h
  | ok => exact congrArg Except.ok (Option.some.inj h)

end Single

/-! ## A result for each item -/

section Rows

variable {f : α → Except ε β} {xs : List α} {ys : List β}

theorem mapM_eq_ok_iff : xs.mapM f = .ok ys ↔ List.Forall₂ (fun x y => f x = .ok y) xs ys := by
  induction xs generalizing ys with
  | nil => cases ys <;> simp [pure, Except.pure]
  | cons x xs ih =>
    rw [List.mapM_cons, List.forall₂_cons_left_iff]
    constructor
    · intro run
      obtain ⟨y, first, run⟩ := ok_of_bind run
      obtain ⟨others, rest, run⟩ := ok_of_bind run
      cases run
      exact ⟨y, others, first, ih.mp rest, rfl⟩
    · rintro ⟨y, others, first, rest, rfl⟩
      rw [first, ih.mpr rest]
      rfl

theorem exists_mapM_iff : (∃ ys, xs.mapM f = .ok ys) ↔ ∀ x ∈ xs, ∃ y, f x = .ok y := by
  induction xs with
  | nil => exact ⟨fun _ => List.forall_mem_nil _, fun _ => ⟨[], rfl⟩⟩
  | cons x xs ih =>
    rw [List.forall_mem_cons, ← ih, List.mapM_cons]
    constructor
    · rintro ⟨ys, run⟩
      obtain ⟨y, first, run⟩ := ok_of_bind run
      obtain ⟨others, rest, _⟩ := ok_of_bind run
      exact ⟨⟨y, first⟩, others, rest⟩
    · rintro ⟨⟨y, first⟩, others, rest⟩
      rw [first, rest]
      exact ⟨y :: others, rfl⟩

/-- Every item of a list has its partner in the other. -/
theorem exists_of_mem_forall₂ {R : α → β → Prop} (each : List.Forall₂ R xs ys) {x : α}
    (inside : x ∈ xs) : ∃ y ∈ ys, R x y := by
  induction each with
  | nil => cases inside
  | cons related _ ih =>
    rcases List.mem_cons.mp inside with rfl | inside
    · exact ⟨_, List.mem_cons_self, related⟩
    · obtain ⟨y, there, related⟩ := ih inside
      exact ⟨y, List.mem_cons_of_mem _ there, related⟩

end Rows

end ClassAtlas
