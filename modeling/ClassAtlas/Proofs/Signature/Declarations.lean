import ClassAtlas.Proofs.Signature.Declared
import ClassAtlas.Proofs.Signature.Rendered

/-!
# Class and method signatures read back

A declaration is read from its written form. A parameter has two spellings: its first bound is the
class bound, or there is no class bound and a second colon stands in front of the interfaces. Either
way the bounds are read as one list. Every parameter has a bound here, so that none is taken for a
bound of the one before it.

* `ClassSignature.Rendered.written`, `MethodSignature.Rendered.written`: each spelling of a
  declaration follows the grammar;
* `ClassSignature.parse_rendered`, `MethodSignature.parse_rendered`: so it is read back.
-/

namespace ClassAtlas

namespace TypeSignature

/-! ## Types -/

theorem IsJava.form {type : TypeSignature} (h : IsJava type) :
    JavaForm ReferenceWritten type.render type := by
  cases h with
  | base type => exact .base type
  | reference h => exact .reference (written_render type h)

/-- The types that classes extend and implement. -/
inductive IsClass : TypeSignature → Prop
  | mk {name : String} {arguments : List TypeArgument}
    (h : IsReference (.classType name arguments)) : IsClass (.classType name arguments)

theorem IsClass.form {type : TypeSignature} (h : IsClass type) :
    ClassForm ReferenceWritten type.render type := by
  obtain ⟨h⟩ := h
  cases h with
  | classType nameable each =>
    exact classForm_render nameable (argumentsForm_render (written_arguments _ each))

theorem forall₂_render {Form : List Char → TypeSignature → Prop} {types : List TypeSignature}
    (each : ∀ type ∈ types, Form type.render type) :
    List.Forall₂ Form (types.map render) types := by
  rw [List.forall₂_map_left_iff, List.forall₂_same]
  exact each

end TypeSignature

open TypeSignature (IsReference IsJava IsClass)

namespace TypeParameter

/-! ## Type parameters -/

/-- A type parameter that a signature can declare. -/
structure IsWhole (parameter : TypeParameter) : Prop where
  nonempty : parameter.name ≠ ""
  unended : ':' ∉ parameter.name.toList
  apart : parameter.name.toList.head? ≠ some '>'
  bounded : parameter.bounds ≠ []
  bounds : ∀ bound ∈ parameter.bounds, IsReference bound

/-- Each bound behind a colon. -/
def renderBounds (bounds : List TypeSignature) : List Char :=
  bounds.flatMap fun bound => ':' :: bound.render

/-- The spellings of a type parameter: its first bound is a class bound, or all are interfaces. -/
inductive Rendered (parameter : TypeParameter) : List Char → Prop
  | classBound : Rendered parameter (parameter.name.toList ++ renderBounds parameter.bounds)
  | interfaces :
    Rendered parameter (parameter.name.toList ++ ':' :: renderBounds parameter.bounds)

theorem renderBounds_eq (bounds : List TypeSignature) :
    renderBounds bounds = colons (bounds.map TypeSignature.render) := by
  simp [renderBounds, colons, List.flatMap_def, Function.comp_def]

theorem IsWhole.isName {parameter : TypeParameter} (h : parameter.IsWhole) :
    IsName parameter.name.toList where
  nonempty := by simpa using h.nonempty
  unended := h.unended
  apart := h.apart

theorem Rendered.declared {parameter : TypeParameter} {text : List Char}
    (rendered : parameter.Rendered text) (h : parameter.IsWhole) : Declared text parameter := by
  have named := h.isName
  have written := fun bound inside => TypeSignature.written_render bound (h.bounds bound inside)
  obtain ⟨name, bounds⟩ := parameter
  rw [← String.ofList_toList (s := name)]
  cases rendered with
  | classBound =>
    obtain ⟨first, others, rfl⟩ := List.exists_cons_of_ne_nil h.bounded
    rw [List.forall_mem_cons] at written
    have bounded := BoundsWritten.classBound written.1 (TypeSignature.forall₂_render written.2)
    rw [renderBounds_eq]
    exact .mk named bounded
  | interfaces =>
    rw [renderBounds_eq]
    exact .mk named (.interfaces (TypeSignature.forall₂_render written))

/-- Parameters in angle brackets; nothing if there are none. -/
inductive ListRendered : List TypeParameter → List Char → Prop
  | none : ListRendered [] []
  | some {parameters : List TypeParameter} {texts : List (List Char)} (filled : parameters ≠ [])
    (each : List.Forall₂ Rendered parameters texts) :
    ListRendered parameters ('<' :: (texts.flatten ++ ['>']))

section Lists

variable {parameters : List TypeParameter} (h : ∀ parameter ∈ parameters, parameter.IsWhole)

include h

theorem ListRendered.declared {text : List Char} (rendered : ListRendered parameters text) :
    ListDeclared text parameters := by
  cases rendered with
  | none => exact .nothing
  | some filled each =>
    have whole := (List.forall₂_and_left _ _).mpr ⟨h, each⟩
    exact .brackets filled (whole.imp fun _ _ both => both.2.declared both.1).flip

theorem clear_of_isWhole : Clear parameters :=
  clear_of_bounded fun parameter inside => (h parameter inside).bounded

end Lists

end TypeParameter

namespace ClassSignature

/-! ## Classes -/

/-- A declaration that a class signature can be written for. -/
structure IsWhole (signature : ClassSignature) : Prop where
  typeParameters : ∀ parameter ∈ signature.typeParameters, parameter.IsWhole
  superclass : IsClass signature.superclass
  interfaces : ∀ interface ∈ signature.interfaces, IsClass interface

/-- The written forms of a declaration. They differ in the spellings of the type parameters. -/
inductive Rendered (signature : ClassSignature) : List Char → Prop
  | mk {text : List Char} (declared : TypeParameter.ListRendered signature.typeParameters text) :
    Rendered signature (text ++ (signature.superclass.render ++
      signature.interfaces.flatMap TypeSignature.render))

variable {signature : ClassSignature} {text : List Char}

theorem Rendered.written (rendered : signature.Rendered text) (h : signature.IsWhole) :
    Written text signature := by
  cases rendered with
  | mk declared =>
    have interfaces := TypeSignature.forall₂_render fun type inside =>
      (h.interfaces type inside).form
    rw [List.flatMap_def]
    exact .mk (declared.declared h.typeParameters) h.superclass.form interfaces

theorem parse_rendered (h : signature.IsWhole) (rendered : signature.Rendered text) :
    parse (String.ofList text) = .ok signature :=
  parse_written (rendered.written h) (TypeParameter.clear_of_isWhole h.typeParameters)

end ClassSignature

namespace MethodSignature

/-! ## Methods -/

/-- A declaration that a method signature can be written for. -/
structure IsWhole (signature : MethodSignature) : Prop where
  typeParameters : ∀ parameter ∈ signature.typeParameters, parameter.IsWhole
  parameters : ∀ parameter ∈ signature.parameters, IsJava parameter
  returns : signature.returnType = .void ∨ IsJava signature.returnType
  throws : ∀ thrown ∈ signature.throws, IsReference thrown

/-- The written forms of a declaration. They differ in the spellings of the type parameters. -/
inductive Rendered (signature : MethodSignature) : List Char → Prop
  | mk {text : List Char} (declared : TypeParameter.ListRendered signature.typeParameters text) :
    Rendered signature (text ++ '(' :: (signature.parameters.flatMap TypeSignature.render ++
      ')' :: (signature.returnType.render ++
        signature.throws.flatMap fun thrown => '^' :: thrown.render)))

theorem returnForm_render {type : TypeSignature} (h : type = .void ∨ IsJava type) :
    ReturnForm type.render type := by
  rcases h with rfl | java
  · exact .void
  · exact .value java.form

variable {signature : MethodSignature} {text : List Char}

theorem Rendered.written (rendered : signature.Rendered text) (h : signature.IsWhole) :
    Written text signature := by
  cases rendered with
  | mk declared =>
    have parameters := TypeSignature.forall₂_render fun type inside =>
      (h.parameters type inside).form
    have throws := TypeSignature.forall₂_render fun type inside =>
      TypeSignature.written_render type (h.throws type inside)
    have whole := Written.mk (declared.declared h.typeParameters) parameters
      (returnForm_render h.returns) throws
    simpa [List.flatMap_def, Function.comp_def] using whole

theorem parse_rendered (h : signature.IsWhole) (rendered : signature.Rendered text) :
    parse (String.ofList text) = .ok signature :=
  parse_written (rendered.written h) (TypeParameter.clear_of_isWhole h.typeParameters)

end MethodSignature

namespace Signature

/-- A class or a method that has a signature is read from it, whichever way each of its type
parameters is spelled. -/
theorem parse_declarations :
    (∀ (signature : ClassSignature) (text : List Char), signature.IsWhole →
      signature.Rendered text → ClassSignature.parse (String.ofList text) = .ok signature) ∧
    (∀ (signature : MethodSignature) (text : List Char), signature.IsWhole →
      signature.Rendered text → MethodSignature.parse (String.ofList text) = .ok signature) :=
  ⟨fun _ _ whole rendered => ClassSignature.parse_rendered whole rendered,
    fun _ _ whole rendered => MethodSignature.parse_rendered whole rendered⟩

/-- A class without arguments. -/
def plainClass (name : String) : TypeSignature := .classType name []

theorem isReference_plainClass {name : String} (h : TypeSignature.Nameable name) :
    IsReference (plainClass name) := .classType h (List.forall_mem_nil _)

/-- One parameter has a class bound, the other an interface alone. -/
def boxSignature : ClassSignature where
  typeParameters := [⟨"N", [plainClass "Number"]⟩,
    ⟨"E", [.classType "Comparable" [.exactly (.typeVariable "N")]]⟩]
  superclass := plainClass "Object"
  interfaces := [plainClass "Runnable"]

theorem isWhole_boxSignature : boxSignature.IsWhole where
  typeParameters := by
    have number : IsReference (plainClass "Number") := isReference_plainClass (by decide)
    have comparable : IsReference (.classType "Comparable" [.exactly (.typeVariable "N")]) := by
      refine .classType (by decide) ?_
      rw [List.forall_mem_singleton]
      exact .exactly (.typeVariable (by decide) (by decide))
    rw [boxSignature, List.forall_mem_cons, List.forall_mem_singleton]
    constructor
    · exact ⟨by decide, by decide, by decide, by simp, List.forall_mem_singleton.mpr number⟩
    · exact ⟨by decide, by decide, by decide, by simp, List.forall_mem_singleton.mpr comparable⟩
  superclass := .mk (isReference_plainClass (by decide))
  interfaces := List.forall_mem_singleton.mpr (.mk (isReference_plainClass (by decide)))

def putSignature : MethodSignature where
  typeParameters := [⟨"E", [plainClass "Runnable"]⟩]
  parameters := [.base .int, .array (.typeVariable "E")]
  returnType := .void
  throws := [plainClass "IOException"]

theorem isWhole_putSignature : putSignature.IsWhole where
  typeParameters := by
    have runnable : IsReference (plainClass "Runnable") := isReference_plainClass (by decide)
    rw [putSignature, List.forall_mem_singleton]
    exact ⟨by decide, by decide, by decide, by simp, List.forall_mem_singleton.mpr runnable⟩
  parameters := by
    have element : IsReference (.typeVariable "E") := .typeVariable (by decide) (by decide)
    rw [putSignature, List.forall_mem_cons, List.forall_mem_singleton]
    exact ⟨.base .int, .reference (.array (.reference element))⟩
  returns := .inl rfl
  throws := List.forall_mem_singleton.mpr (isReference_plainClass (by decide))

theorem parse_declarations_box :
    ClassSignature.parse "<N:LNumber;E::LComparable<TN;>;>LObject;LRunnable;" = .ok boxSignature ∧
    MethodSignature.parse "<E::LRunnable;>(I[TE;)V^LIOException;" = .ok putSignature := by
  have inClass : TypeParameter.ListRendered boxSignature.typeParameters _ :=
    .some (List.cons_ne_nil _ _) (.cons .classBound (.cons .interfaces .nil))
  have inMethod : TypeParameter.ListRendered putSignature.typeParameters _ :=
    .some (List.cons_ne_nil _ _) (.cons .interfaces .nil)
  exact ⟨parse_declarations.1 boxSignature _ isWhole_boxSignature (.mk inClass),
    parse_declarations.2 putSignature _ isWhole_putSignature (.mk inMethod)⟩

end Signature

end ClassAtlas
