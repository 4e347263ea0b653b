import ClassAtlas.Proofs.ClassDecl.Mentions
import Mathlib.Data.List.Forall2

/-!
# Declarations that agree

Two declarations agree when they differ at most in how visible and invisible annotations stand among
each other: within each list of annotations, those that are visible stand in the same order, and so
do those that are not. Declarations that agree have the same references
(`ClassDecl.Agrees.mem_references`).
-/

namespace ClassAtlas

open ClassReference

theorem forall₂_trans {α : Type} {R : α → α → Prop} (trans : ∀ {a b c}, R a b → R b c → R a c)
    {one middle other : List α} (first : List.Forall₂ R one middle)
    (second : List.Forall₂ R middle other) : List.Forall₂ R one other := by
  induction first generalizing other with
  | nil => exact second
  | cons h _ ih =>
    cases second with
    | cons h' others => exact .cons (trans h h') (ih others)

theorem mem_flatMap_congr {α β : Type} {R : α → α → Prop} {f : α → List β} {b : β}
    {one other : List α} (rows : List.Forall₂ R one other)
    (h : ∀ a a', R a a' → (b ∈ f a ↔ b ∈ f a')) : b ∈ one.flatMap f ↔ b ∈ other.flatMap f := by
  induction rows with
  | nil => rfl
  | cons related _ ih =>
    rw [List.flatMap_cons, List.flatMap_cons, List.mem_append, List.mem_append, ih, h _ _ related]

/-! ## Annotations -/

/-- The visible annotations stand in the same order in both lists, and so do the others. -/
def SameByVisibility (one other : List Annotation) : Prop :=
  ∀ visible, one.filter (·.visible = visible) = other.filter (·.visible = visible)

namespace SameByVisibility

variable {one other : List Annotation}

theorem refl (annotations : List Annotation) : SameByVisibility annotations annotations :=
  fun _ => rfl

theorem trans {one middle other : List Annotation} (first : SameByVisibility one middle)
    (second : SameByVisibility middle other) : SameByVisibility one other :=
  fun visible => (first visible).trans (second visible)

theorem append_right (h : SameByVisibility one other) (more : List Annotation) :
    SameByVisibility (one ++ more) (other ++ more) := by
  intro visible
  rw [List.filter_append, List.filter_append, h visible]

/-- Annotations of different visibility may be added in any order. -/
theorem swap (front : List Annotation)
    (apart : ∀ marked ∈ one, ∀ marked' ∈ other, marked.visible ≠ marked'.visible) :
    SameByVisibility ((front ++ one) ++ other) ((front ++ other) ++ one) := by
  intro visible
  simp only [List.filter_append, List.append_assoc]
  by_cases inOne : ∃ marked ∈ one, marked.visible = visible
  · obtain ⟨marked, inside, rfl⟩ := inOne
    have empty : other.filter (·.visible = marked.visible) = [] := by
      rw [List.filter_eq_nil_iff]
      intro marked' inside' same
      exact apart marked inside marked' inside' (of_decide_eq_true same).symm
    rw [empty, List.append_nil, List.nil_append]
  · have empty : one.filter (·.visible = visible) = [] := by
      rw [List.filter_eq_nil_iff]
      intro marked inside same
      exact inOne ⟨marked, inside, of_decide_eq_true same⟩
    rw [empty, List.append_nil, List.nil_append]

theorem mem_iff (h : SameByVisibility one other) {marked : Annotation} :
    marked ∈ one ↔ marked ∈ other := by
  have own : ∀ annotations : List Annotation,
      marked ∈ annotations.filter (·.visible = marked.visible) ↔ marked ∈ annotations := by
    intro annotations
    rw [List.mem_filter, and_iff_left (decide_eq_true rfl)]
  rw [← own one, h, own]

theorem mem_ofAnnotations (h : SameByVisibility one other) {reference : ClassReference} :
    reference ∈ ofAnnotations one ↔ reference ∈ ofAnnotations other := by
  simp only [ofAnnotations, ofKind, List.mem_map, List.mem_flatMap, h.mem_iff]

end SameByVisibility

/-! ## Members and classes -/

structure FieldDecl.Agrees (one other : FieldDecl) : Prop where
  /-- The fields are the same but for their annotations. -/
  otherwise : { one with annotations := [] } = { other with annotations := [] }
  annotations : SameByVisibility one.annotations other.annotations

structure MethodDecl.Agrees (one other : MethodDecl) : Prop where
  /-- The methods are the same but for their annotations. -/
  otherwise : { one with annotations := [], parameterAnnotations := [] } =
    { other with annotations := [], parameterAnnotations := [] }
  annotations : SameByVisibility one.annotations other.annotations
  /-- Parameter by parameter. -/
  parameterAnnotations :
    List.Forall₂ SameByVisibility one.parameterAnnotations other.parameterAnnotations

structure ClassDecl.Agrees (one other : ClassDecl) : Prop where
  /-- The classes are the same but for their members and annotations. -/
  otherwise : { one with fields := [], methods := [], annotations := [] } =
    { other with fields := [], methods := [], annotations := [] }
  fields : List.Forall₂ FieldDecl.Agrees one.fields other.fields
  methods : List.Forall₂ MethodDecl.Agrees one.methods other.methods
  annotations : SameByVisibility one.annotations other.annotations

namespace FieldDecl.Agrees

theorem refl (field : FieldDecl) : field.Agrees field := ⟨rfl, .refl _⟩

theorem trans {one middle other : FieldDecl} (first : one.Agrees middle)
    (second : middle.Agrees other) : one.Agrees other :=
  ⟨first.otherwise.trans second.otherwise, first.annotations.trans second.annotations⟩

theorem mem_mentions {one other : FieldDecl} (h : one.Agrees other) {reference : ClassReference} :
    reference ∈ one.mentions ↔ reference ∈ other.mentions := by
  have type : one.type = other.type := (congrArg FieldDecl.type h.otherwise :)
  have signature : one.signature = other.signature := (congrArg FieldDecl.signature h.otherwise :)
  simp only [mentions, List.mem_append, type, signature, h.annotations.mem_ofAnnotations]

end FieldDecl.Agrees

namespace MethodDecl.Agrees

theorem refl (method : MethodDecl) : method.Agrees method :=
  ⟨rfl, .refl _, List.forall₂_same.mpr fun _ _ => .refl _⟩

theorem trans {one middle other : MethodDecl} (first : one.Agrees middle)
    (second : middle.Agrees other) : one.Agrees other :=
  ⟨first.otherwise.trans second.otherwise, first.annotations.trans second.annotations,
    forall₂_trans .trans first.parameterAnnotations second.parameterAnnotations⟩

theorem mem_mentions {one other : MethodDecl} (h : one.Agrees other)
    {reference : ClassReference} :
    reference ∈ one.mentions ↔ reference ∈ other.mentions := by
  have parameters : one.parameters = other.parameters :=
    (congrArg MethodDecl.parameters h.otherwise :)
  have returnType : one.returnType = other.returnType :=
    (congrArg MethodDecl.returnType h.otherwise :)
  have exceptions : one.exceptions = other.exceptions :=
    (congrArg MethodDecl.exceptions h.otherwise :)
  have signature : one.signature = other.signature := (congrArg MethodDecl.signature h.otherwise :)
  have slots : reference ∈ one.parameterAnnotations.flatMap ofAnnotations ↔
      reference ∈ other.parameterAnnotations.flatMap ofAnnotations :=
    mem_flatMap_congr h.parameterAnnotations fun _ _ same => same.mem_ofAnnotations
  simp only [mentions, List.mem_append, parameters, returnType, exceptions, signature,
    h.annotations.mem_ofAnnotations, slots]

end MethodDecl.Agrees

namespace ClassDecl.Agrees

theorem refl (decl : ClassDecl) : decl.Agrees decl :=
  ⟨rfl, List.forall₂_same.mpr fun _ _ => .refl _, List.forall₂_same.mpr fun _ _ => .refl _,
    .refl _⟩

theorem trans {one middle other : ClassDecl} (first : one.Agrees middle)
    (second : middle.Agrees other) : one.Agrees other :=
  ⟨first.otherwise.trans second.otherwise, forall₂_trans .trans first.fields second.fields,
    forall₂_trans .trans first.methods second.methods,
    first.annotations.trans second.annotations⟩

theorem mem_mentions {one other : ClassDecl} (h : one.Agrees other) {reference : ClassReference} :
    reference ∈ one.mentions ↔ reference ∈ other.mentions := by
  have superclass : one.superclass = other.superclass :=
    (congrArg ClassDecl.superclass h.otherwise :)
  have interfaces : one.interfaces = other.interfaces :=
    (congrArg ClassDecl.interfaces h.otherwise :)
  have enclosingClass : one.enclosingClass = other.enclosingClass :=
    (congrArg ClassDecl.enclosingClass h.otherwise :)
  have signature : one.signature = other.signature := (congrArg ClassDecl.signature h.otherwise :)
  have fields : reference ∈ one.fields.flatMap FieldDecl.mentions ↔
      reference ∈ other.fields.flatMap FieldDecl.mentions :=
    mem_flatMap_congr h.fields fun _ _ agrees => agrees.mem_mentions
  have methods : reference ∈ one.methods.flatMap MethodDecl.mentions ↔
      reference ∈ other.methods.flatMap MethodDecl.mentions :=
    mem_flatMap_congr h.methods fun _ _ agrees => agrees.mem_mentions
  simp only [mentions, List.mem_append, superclass, interfaces, enclosingClass, signature,
    h.annotations.mem_ofAnnotations, fields, methods]

/-- Classes that agree have the same references, if not in the same order. -/
theorem mem_references {one other : ClassDecl} (h : one.Agrees other)
    {reference : ClassReference} :
    reference ∈ one.references ↔ reference ∈ other.references := by
  have name : one.name = other.name := (congrArg ClassDecl.name h.otherwise :)
  rw [ClassDecl.mem_references, ClassDecl.mem_references, h.mem_mentions, name]

end ClassDecl.Agrees

end ClassAtlas
