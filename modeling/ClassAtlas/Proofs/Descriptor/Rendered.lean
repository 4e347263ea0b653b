import ClassAtlas.Proofs.Descriptor.Written

/-!
# Descriptors read back

A descriptor is read to the type it is written for. That takes a class name without slashes, which
are read as dots, and without a semicolon, which ends the name; what is read has such names alone.

* `written_render` and `MethodType.written_render`: what `render` writes follows the grammar;
* `isField_of_written` and `MethodType.isMethod_of_written`: every written type is a field type or a
  method type, so it can be rendered again;
* `descriptors_exact`: reading and rendering are inverse to each other, and what is read is exactly
  what the grammar has.
-/

namespace ClassAtlas

namespace ClassName

theorem dotted_slashed {name : List Char} (h : '/' ∉ name) : dotted (slashed name) = name := by
  induction name with
  | nil => rfl
  | cons c name ih =>
    simp only [List.mem_cons, not_or] at h
    have hc : c ≠ '/' := fun e => h.1 e.symm
    have others := ih h.2
    by_cases hs : c = '.'
    · simp_all [slashed, dotted]
    · simp_all [slashed, dotted]

theorem mem_slashed {name : List Char} {c : Char} (h : c ∈ slashed name) :
    c = '/' ∨ c ≠ '.' ∧ c ∈ name := by
  obtain ⟨d, inside, written⟩ := List.mem_map.mp h
  by_cases dot : d = '.'
  · rw [if_pos dot] at written
    exact .inl written.symm
  · rw [if_neg dot] at written
    exact .inr ⟨written ▸ dot, written ▸ inside⟩

theorem mem_dotted {name : List Char} {c : Char} (h : c ∈ dotted name) :
    c = '.' ∨ c ≠ '/' ∧ c ∈ name := by
  obtain ⟨d, inside, written⟩ := List.mem_map.mp h
  by_cases slash : d = '/'
  · rw [if_pos slash] at written
    exact .inl written.symm
  · rw [if_neg slash] at written
    exact .inr ⟨written ▸ slash, written ▸ inside⟩

end ClassName

namespace JavaType

/-- A class name that a descriptor can hold, with dots. -/
structure Nameable (name : String) : Prop where
  nonempty : name ≠ ""
  unended : ';' ∉ name.toList
  dotted : '/' ∉ name.toList

/-- What an array may be made of. -/
inductive IsComponent : JavaType → Prop
  | primitive (type : Primitive) : IsComponent (.primitive type)
  | object {name : String} (nameable : Nameable name) : IsComponent (.object name)

/-- The types that fields have. -/
inductive IsField : JavaType → Prop
  | component {type : JavaType} (h : IsComponent type) : IsField type
  | array {element : JavaType} {dimensions : Nat} (h : IsComponent element)
    (positive : 0 < dimensions) (few : dimensions ≤ 255) : IsField (.array element dimensions)

theorem componentWritten_render {type : JavaType} (h : IsComponent type) :
    ComponentWritten type.render type := by
  cases h with
  | primitive type => exact .primitive type
  | @object name nameable =>
    have nonempty : ClassName.slashed name.toList ≠ [] := by
      have filled := nameable.nonempty
      simpa [ClassName.slashed] using filled
    have unended : ';' ∉ ClassName.slashed name.toList := by
      intro inside
      rcases ClassName.mem_slashed inside with slash | ⟨-, inside⟩
      · exact absurd slash (by decide)
      · exact nameable.unended inside
    have written := ComponentWritten.object nonempty unended
    rwa [ClassName.dotted_slashed nameable.dotted, String.ofList_toList] at written

theorem written_render {type : JavaType} (h : type.IsField) : FieldWritten type.render type := by
  cases h with
  | component h => exact .component (componentWritten_render h)
  | array h positive few => exact .array (componentWritten_render h) positive few

theorem isComponent_of_written {text : List Char} {type : JavaType}
    (h : ComponentWritten text type) : IsComponent type := by
  cases h with
  | primitive type => exact .primitive type
  | @object name nonempty unended =>
    refine .object ⟨?_, ?_, ?_⟩
    · simpa [ClassName.dotted, String.ofList_eq_empty_iff] using nonempty
    · rw [String.toList_ofList]
      intro inside
      rcases ClassName.mem_dotted inside with dot | ⟨-, inside⟩
      · exact absurd dot (by decide)
      · exact unended inside
    · rw [String.toList_ofList]
      intro inside
      rcases ClassName.mem_dotted inside with dot | ⟨other, -⟩
      · exact absurd dot (by decide)
      · exact other rfl

/-- No array is made of arrays or of nothing, and none has no dimension. -/
theorem isField_of_written {text : List Char} {type : JavaType} (h : FieldWritten text type) :
    type.IsField := by
  cases h with
  | component h => exact .component (isComponent_of_written h)
  | array h positive few => exact .array (isComponent_of_written h) positive few

theorem render_of_componentWritten {text : List Char} {type : JavaType}
    (h : ComponentWritten text type) (plain : '.' ∉ text) : type.render = text := by
  cases h with
  | primitive type => rfl
  | @object name nonempty unended =>
    have own : '.' ∉ name := fun inside => plain (by simp [inside])
    rw [render, String.toList_ofList, ClassName.slashed_dotted own]
    rfl

theorem render_of_written {text : List Char} {type : JavaType} (h : FieldWritten text type)
    (plain : '.' ∉ text) : type.render = text := by
  cases h with
  | component h => exact render_of_componentWritten h plain
  | array h positive few =>
    rw [render, render_of_componentWritten h fun inside => plain (List.mem_append_right _ inside)]

/-- The descriptor of a type names that type. -/
theorem parse_render {type : JavaType} (h : type.IsField) :
    parse (String.ofList type.render) = .ok type := by
  rw [parse_eq_ok_iff, String.toList_ofList]
  exact written_render h

end JavaType

namespace MethodType

/-- What methods take and return. Nothing is taken that is `void`. -/
structure IsMethod (type : MethodType) : Prop where
  parameters : ∀ parameter ∈ type.parameters, parameter.IsField
  returns : type.returnType = .void ∨ type.returnType.IsField

theorem written_render {type : MethodType} (h : type.IsMethod) : Written type.render type := by
  obtain ⟨parameters, returnType⟩ := type
  have each : List.Forall₂ JavaType.FieldWritten (parameters.map JavaType.render) parameters := by
    rw [List.forall₂_map_left_iff, List.forall₂_same]
    exact fun parameter inside => JavaType.written_render (h.parameters parameter inside)
  have returns : ReturnWritten returnType.render returnType := by
    rcases h.returns with rfl | field
    · exact .void
    · exact .value (JavaType.written_render field)
  have written := Written.mk each returns
  rwa [← List.flatMap_def, List.append_assoc] at written

theorem isMethod_of_written {text : List Char} {type : MethodType} (h : Written text type) :
    type.IsMethod := by
  cases h with
  | mk each returns =>
    constructor
    · induction each with
      | nil => exact fun _ inside => nomatch inside
      | cons first _ ih => exact List.forall_mem_cons.mpr ⟨JavaType.isField_of_written first, ih⟩
    · cases returns with
      | void => exact .inl rfl
      | value h => exact .inr (JavaType.isField_of_written h)

theorem render_parameters {texts : List (List Char)} {parameters : List JavaType}
    (each : List.Forall₂ JavaType.FieldWritten texts parameters) (plain : '.' ∉ texts.flatten) :
    parameters.flatMap JavaType.render = texts.flatten := by
  induction each with
  | nil => rfl
  | cons first _ ih =>
    rw [List.flatten_cons, List.mem_append, not_or] at plain
    rw [List.flatMap_cons, List.flatten_cons, JavaType.render_of_written first plain.1,
      ih plain.2]

theorem render_of_written {text : List Char} {type : MethodType} (h : Written text type)
    (plain : '.' ∉ text) : type.render = text := by
  cases h with
  | @mk texts parameters text returnType each returns =>
    have apart : '.' ∉ texts.flatten ∧ '.' ∉ text :=
      ⟨fun inside => plain (by simp [inside]), fun inside => plain (by simp [inside])⟩
    have behind : returnType.render = text := by
      cases returns with
      | void => rfl
      | value h => exact JavaType.render_of_written h apart.2
    rw [render, render_parameters each apart.1, behind, List.append_assoc]
    rfl

end MethodType

namespace Descriptor

/-- Reading and rendering descriptors, against the grammar they follow. -/
structure Exact {α : Type} (parse : String → Except ClassFileError α)
    (Written : List Char → α → Prop) (render : α → List Char) (IsWhole : α → Prop) : Prop where
  /-- Exactly what follows the grammar is accepted, with the type that it is written for. -/
  accepts : ∀ descriptor type, parse descriptor = .ok type ↔ Written descriptor.toList type
  /-- Anything else is refused, and the text is told. -/
  refuses : ∀ descriptor error, parse descriptor = .error error ↔
    (¬ ∃ type, Written descriptor.toList type) ∧ error = .badDescriptor descriptor
  /-- What is read from a text without dots is rendered as that text. -/
  renders : ∀ descriptor type, parse descriptor = .ok type → '.' ∉ descriptor.toList →
    String.ofList (render type) = descriptor
  /-- What is rendered is read back. -/
  reads : ∀ type, IsWhole type → parse (String.ofList (render type)) = .ok type
  /-- What is read is a whole type. -/
  whole : ∀ descriptor type, parse descriptor = .ok type → IsWhole type

/-- A grammar whose texts are read and rendered one by one is followed exactly. -/
theorem Exact.of_written {α : Type} {parse : String → Except ClassFileError α}
    {Written : List Char → α → Prop} {render : α → List Char} {IsWhole : α → Prop}
    (accepts : ∀ {s a}, parse s = .ok a ↔ Written s.toList a)
    (refuses : ∀ {s error}, parse s = .error error ↔
      (¬ ∃ a, Written s.toList a) ∧ error = .badDescriptor s)
    (renders : ∀ {text a}, Written text a → '.' ∉ text → render a = text)
    (reads : ∀ {a}, IsWhole a → Written (render a) a)
    (whole : ∀ {text a}, Written text a → IsWhole a) : Exact parse Written render IsWhole where
  accepts _ _ := accepts
  refuses _ _ := refuses
  renders s a read plain := by
    rw [renders (accepts.mp read) plain, String.ofList_toList]
  reads a h := by
    rw [accepts, String.toList_ofList]
    exact reads h
  whole _ _ read := whole (accepts.mp read)

/-- Descriptors of fields and of methods are read exactly as the grammar has them. What is read of
either is a whole type: no array is made of arrays, each has a dimension, and only a method returns
`void`. -/
theorem descriptors_exact :
    Exact JavaType.parse JavaType.FieldWritten JavaType.render JavaType.IsField ∧
    Exact MethodType.parse MethodType.Written MethodType.render MethodType.IsMethod :=
  ⟨.of_written JavaType.parse_eq_ok_iff JavaType.parse_eq_error_iff JavaType.render_of_written
      JavaType.written_render JavaType.isField_of_written,
    .of_written MethodType.parse_eq_ok_iff MethodType.parse_eq_error_iff
      MethodType.render_of_written MethodType.written_render MethodType.isMethod_of_written⟩

end Descriptor

end ClassAtlas
