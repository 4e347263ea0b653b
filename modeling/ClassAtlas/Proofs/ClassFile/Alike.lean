import Mathlib.Data.List.Forall2
import Mathlib.Data.List.Perm.Basic

/-!
# Results that are alike

`Alike R one other`: both results are refusals, for whatever reasons, or both are values that `R`
relates. What is read in sequence from results that are alike gives results that are alike.

* `alike_noted`: items tell their notes to related states;
* `alike_noted_perm`: items of which any two may change places may stand in any order.
-/

namespace ClassAtlas

variable {ε α β γ σ ι ν : Type}

/-- Both results are refusals, or both are values that the relation holds between. -/
inductive Alike (R : α → β → Prop) : Except ε α → Except ε β → Prop
  | refused (one other : ε) : Alike R (.error one) (.error other)
  | given {one : α} {other : β} (related : R one other) : Alike R (.ok one) (.ok other)

namespace Alike

theorem trans {R : α → α → Prop} {one middle other : Except ε α} (first : Alike R one middle)
    (second : Alike R middle other) (h : ∀ {a b c}, R a b → R b c → R a c) :
    Alike R one other := by
  cases first with
  | refused e _ =>
    cases second with
    | refused _ e' => exact .refused e e'
  | given related =>
    cases second with
    | given related' => exact .given (h related related')

theorem bind {α' β' : Type} {R : α → β → Prop} {S : α' → β' → Prop} {one : Except ε α}
    {other : Except ε β} {next : α → Except ε α'} {after : β → Except ε β'}
    (first : Alike R one other) (second : ∀ a b, R a b → Alike S (next a) (after b)) :
    Alike S (one >>= next) (other >>= after) := by
  cases first with
  | refused e e' => exact .refused e e'
  | given related => exact second _ _ related

theorem mono {R S : α → β → Prop} {one : Except ε α} {other : Except ε β} (h : Alike R one other)
    (weaker : ∀ a b, R a b → S a b) : Alike S one other := by
  cases h with
  | refused e e' => exact .refused e e'
  | given related => exact .given (weaker _ _ related)

end Alike

/-- Of two rows whose items are alike one by one, both have all values or neither has. -/
theorem alike_mapM {κ : Type} {R : α → β → Prop} {f : ι → Except ε α} {g : κ → Except ε β}
    {items : List ι} {others : List κ}
    (h : List.Forall₂ (fun i j => Alike R (f i) (g j)) items others) :
    Alike (List.Forall₂ R) (items.mapM f) (others.mapM g) := by
  induction h with
  | nil => exact .given .nil
  | cons first _ ih =>
    rw [List.mapM_cons, List.mapM_cons]
    refine first.bind fun a b related => ?_
    exact ih.bind fun as bs rows => .given (.cons related rows)

/-! ## Steps -/

section Steps

variable {R : σ → σ → Prop} {note : ι → Except ε ν} {apply : σ → ν → σ}

/-- The state, once the note of each item is applied in turn. -/
def noted (note : ι → Except ε ν) (apply : σ → ν → σ) (state : σ) (items : List ι) : Except ε σ :=
  items.foldlM (fun state item => (note item).map (apply state)) state

theorem noted_cons_of_ok {item : ι} {told : ν} (h : note item = .ok told) (items : List ι)
    (state : σ) :
    noted note apply state (item :: items) = noted note apply (apply state told) items := by
  rw [noted, List.foldlM_cons, h]
  rfl

theorem noted_cons_of_error {item : ι} {e : ε} (h : note item = .error e) (items : List ι)
    (state : σ) : noted note apply state (item :: items) = .error e := by
  rw [noted, List.foldlM_cons, h]
  rfl

variable (congr : ∀ {s t}, R s t → ∀ told, R (apply s told) (apply t told))

include congr

theorem alike_noted (items : List ι) {s t : σ} (h : R s t) :
    Alike R (noted note apply s items) (noted note apply t items) := by
  induction items generalizing s t with
  | nil => exact .given h
  | cons item items ih =>
    cases told : note item with
    | error e =>
      rw [noted_cons_of_error told, noted_cons_of_error told]
      exact .refused e e
    | ok a =>
      rw [noted_cons_of_ok told, noted_cons_of_ok told]
      exact ih (congr h a)

/-- Items of which any two may change places may stand in any order. -/
theorem alike_noted_perm {Apart : ι → ι → Prop} (refl : ∀ s, R s s)
    (trans : ∀ {s t u}, R s t → R t u → R s u) (symm : ∀ {i j}, Apart i j → Apart j i)
    (comm : ∀ {i j a b}, Apart i j → note i = .ok a → note j = .ok b →
      ∀ s, R (apply (apply s a) b) (apply (apply s b) a))
    {items others : List ι} (perm : items.Perm others) (apart : items.Pairwise Apart) (s : σ) :
    Alike R (noted note apply s items) (noted note apply s others) := by
  induction perm generalizing s with
  | nil => exact .given (refl s)
  | @cons item items others perm ih =>
    have apart' := (List.pairwise_cons.mp apart).2
    cases told : note item with
    | error e =>
      rw [noted_cons_of_error told, noted_cons_of_error told]
      exact .refused e e
    | ok a =>
      rw [noted_cons_of_ok told, noted_cons_of_ok told]
      exact ih apart' _
  | swap item other items =>
    have two : Apart other item := (List.pairwise_cons.mp apart).1 item List.mem_cons_self
    cases told : note other with
    | error e =>
      rw [noted_cons_of_error told]
      cases told' : note item with
      | error e' =>
        rw [noted_cons_of_error told']
        exact .refused e e'
      | ok b =>
        rw [noted_cons_of_ok told', noted_cons_of_error told]
        exact .refused e e
    | ok a =>
      rw [noted_cons_of_ok told]
      cases told' : note item with
      | error e =>
        rw [noted_cons_of_error told', noted_cons_of_error told']
        exact .refused e e
      | ok b =>
        rw [noted_cons_of_ok told', noted_cons_of_ok told', noted_cons_of_ok told]
        exact alike_noted congr items (comm two told told' s)
  | trans perm _ ih ih' =>
    have further := ih' (perm.pairwise apart symm)
    exact (ih apart s).trans (further s) trans

end Steps

end ClassAtlas
