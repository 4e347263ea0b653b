import ClassAtlas.Proofs.ClassDecl.Mentions
import ClassAtlas.Proofs.Descriptor.Rendered
import ClassAtlas.Proofs.Signature.Written

/-!
# Generic types without generics

A text that has neither arguments nor inner-class suffixes can be read as a descriptor and as a
field signature. Both readers take the same texts, and they name the same class (`parsers_agree`),
although one counts the brackets in front of an array and the other goes a level down for each.

They differ by type variables, which descriptors do not have, and by the number of brackets, which
only descriptors limit.
-/

namespace ClassAtlas

/-- One dimension more around a type. -/
def JavaType.arrayOf : JavaType → JavaType
  | .array element dimensions => .array element (dimensions + 1)
  | type => .array type 1

namespace TypeSignature

open JavaType (ComponentWritten FieldWritten IsComponent)

/-! ## Erasure -/

/-- The type without its arguments. Arrays of arrays are one array with a dimension for each level.
What a type variable is erased to is told by its declaration, not by the type. -/
def erase? : TypeSignature → Option JavaType
  | base p => some (.primitive p)
  | void => some .void
  | classType name _ => some (.object name)
  | typeVariable _ => none
  | array element => element.erase?.map JavaType.arrayOf

/-- How many arrays stand one in another. -/
def levels : TypeSignature → Nat
  | array element => element.levels + 1
  | _ => 0

/-- There is a type variable in the type, at whatever depth. -/
inductive HasVariable : TypeSignature → Prop
  | typeVariable (name : String) : HasVariable (.typeVariable name)
  | argument {name : String} {arguments : List TypeArgument} {argument : TypeArgument}
    {type : TypeSignature} (there : argument ∈ arguments) (holds : argument.Holds type)
    (inside : type.HasVariable) : HasVariable (.classType name arguments)
  | array {element : TypeSignature} (inside : element.HasVariable) : HasVariable (.array element)

/-- The erased type is this one, and its class is the only one that is mentioned. -/
structure Erases (generic : TypeSignature) (type : JavaType) : Prop where
  erased : generic.erase? = some type
  names : generic.classNames = type.className?.toList
  argumentNames : generic.argumentClassNames = []

theorem Erases.array {generic : TypeSignature} {type : JavaType} (h : Erases generic type) :
    Erases (.array generic) type.arrayOf where
  erased := by simp [erase?, h.erased]
  names := by
    rw [classNames, h.names]
    cases type <;> rfl
  argumentNames := by rw [argumentClassNames, h.argumentNames]

theorem erases_primitive (p : Primitive) : Erases (.base p) (.primitive p) := ⟨rfl, rfl, rfl⟩

theorem erases_object (name : String) : Erases (.classType name []) (.object name) :=
  ⟨rfl, rfl, rfl⟩

theorem arrayOf_component {type : JavaType} (h : IsComponent type) :
    type.arrayOf = .array type 1 := by
  cases h <;> rfl

/-! ## Class types without arguments and suffixes -/

/-- A dot would start a suffix, and a bracket the arguments. -/
theorem ClassForm.bare {Reference : List Char → TypeSignature → Prop} {text : List Char}
    {type : TypeSignature} (h : ClassForm Reference text type) (plain : '.' ∉ text)
    (bare : '<' ∉ text) : ∃ name, Scan.IsWord ['<', '.', ';'] name ∧
      text = 'L' :: (name ++ [';']) ∧
      type = .classType (String.ofList (ClassName.dotted name)) [] := by
  cases h with
  | @mk text outer own texts inner first others =>
    cases others with
    | cons => exact absurd plain (by simp [intercalate_cons])
    | nil =>
      cases first with
      | @mk name _ _ named form =>
        cases form with
        | some => exact absurd bare (by simp [List.intercalate])
        | none => exact ⟨outer, named, by simp [List.intercalate], by simp [List.intercalate]⟩

/-! ## From descriptors to signatures -/

/-- What an array may be made of is written the same way in a signature. -/
theorem java_of_component {text : List Char} {type : JavaType} (h : ComponentWritten text type)
    (plain : '.' ∉ text) (bare : '<' ∉ text) :
    ∃ generic, JavaForm ReferenceWritten text generic ∧ Erases generic type := by
  cases h with
  | primitive p => exact ⟨.base p, .base p, erases_primitive p⟩
  | @object name nonempty unended =>
    simp only [List.mem_cons, List.mem_append, not_or] at plain bare
    have word : Scan.IsWord ['<', '.', ';'] name := by
      refine ⟨nonempty, fun c inside stops => ?_⟩
      simp only [List.mem_cons, List.not_mem_nil, or_false] at stops
      rcases stops with rfl | rfl | rfl
      · exact bare.2.1 inside
      · exact plain.2.1 inside
      · exact unended inside
    exact ⟨_, .reference (.mk (.classType (classForm_of_word word))), erases_object _⟩

/-- Each bracket in front is one level of the array. -/
theorem reference_of_brackets {text : List Char} {element : JavaType}
    (component : IsComponent element) {generic : TypeSignature}
    (form : JavaForm ReferenceWritten text generic) (h : Erases generic element) (fewer : Nat) :
    ∃ generic, ReferenceWritten (List.replicate (fewer + 1) '[' ++ text) generic ∧
      Erases generic (.array element (fewer + 1)) := by
  induction fewer with
  | zero =>
    have erases := h.array
    rw [arrayOf_component component] at erases
    exact ⟨.array generic, .mk (.array form), erases⟩
  | succ fewer ih =>
    obtain ⟨inner, written, erases⟩ := ih
    exact ⟨.array inner, .mk (.array (.reference written)), erases.array⟩

/-- What a descriptor is written for, a signature is written for. A primitive alone is no field
signature. -/
theorem reference_of_field {text : List Char} {type : JavaType} (h : FieldWritten text type)
    (plain : '.' ∉ text) (bare : '<' ∉ text)
    (starts : text.head? = some 'L' ∨ text.head? = some '[') :
    ∃ generic, ReferenceWritten text generic ∧ Erases generic type := by
  cases h with
  | component h =>
    obtain ⟨generic, form, erases⟩ := java_of_component h plain bare
    cases form with
    | base p => cases p <;> simp [Primitive.tag] at starts
    | reference written => exact ⟨generic, written, erases⟩
  | @array text element dimensions h positive few =>
    simp only [List.mem_append, not_or] at plain bare
    obtain ⟨generic, form, erases⟩ := java_of_component h plain.2 bare.2
    obtain ⟨fewer, rfl⟩ := Nat.exists_eq_add_of_le' positive
    exact reference_of_brackets (JavaType.isComponent_of_written h) form erases fewer

/-! ## From signatures to descriptors -/

/-- Brackets, one for each level, and what the array is made of behind them. -/
def IsBracketed (text : List Char) (generic : TypeSignature) : Prop :=
  ∃ behind element, text = List.replicate generic.levels '[' ++ behind ∧
    ComponentWritten behind element

theorem IsBracketed.array {text : List Char} {element : TypeSignature}
    (h : IsBracketed text element) : IsBracketed ('[' :: text) (.array element) := by
  obtain ⟨behind, component, rfl, written⟩ := h
  exact ⟨behind, component, rfl, written⟩

theorem bracketed_of_reference {text : List Char} {generic : TypeSignature}
    (h : ReferenceWritten text generic) :
    '.' ∉ text → '<' ∉ text → ¬ generic.HasVariable → IsBracketed text generic := by
  refine ReferenceWritten.induction (motive := fun text generic =>
    '.' ∉ text → '<' ∉ text → ¬ generic.HasVariable → IsBracketed text generic) ?_ h
  intro text generic form plain bare closed
  cases form with
  | classType h =>
    obtain ⟨name, word, rfl, rfl⟩ := h.bare plain bare
    exact ⟨_, _, rfl, .object word.nonempty (word.unended (by simp))⟩
  | typeVariable => exact absurd (.typeVariable _) closed
  | array h =>
    simp only [List.mem_cons, not_or] at plain bare
    have inside : ¬ _ := fun held => closed (.array held)
    cases h with
    | base p => exact IsBracketed.array ⟨_, _, rfl, .primitive p⟩
    | reference h => exact (h.2.2 plain.2 bare.2 inside).array

theorem field_of_reference {text : List Char} {generic : TypeSignature}
    (h : ReferenceWritten text generic) (plain : '.' ∉ text) (bare : '<' ∉ text)
    (closed : ¬ generic.HasVariable) (few : generic.levels ≤ 255) :
    ∃ type, FieldWritten text type := by
  obtain ⟨behind, element, rfl, written⟩ := bracketed_of_reference h plain bare closed
  by_cases zero : generic.levels = 0
  · rw [zero]
    exact ⟨element, .component written⟩
  · exact ⟨_, .array written (Nat.pos_of_ne_zero zero) few⟩

/-! ## Both readers -/

/-- Where there is nothing generic, a descriptor is a field signature of the same class, and a field
signature without type variables and with at most 255 levels is a descriptor. -/
theorem parsers_agree {text : String} (plain : '.' ∉ text.toList) (bare : '<' ∉ text.toList)
    (starts : text.toList.head? = some 'L' ∨ text.toList.head? = some '[') :
    (∀ type, JavaType.parse text = .ok type →
      ∃ generic, parse text = .ok generic ∧ generic.erase? = some type ∧
        generic.classNames = type.className?.toList ∧ generic.argumentClassNames = []) ∧
    ∀ generic, parse text = .ok generic → ¬ generic.HasVariable → generic.levels ≤ 255 →
      ∃ type, JavaType.parse text = .ok type ∧ generic.erase? = some type := by
  have forth : ∀ type, FieldWritten text.toList type →
      ∃ generic, parse text = .ok generic ∧ Erases generic type := by
    intro type written
    obtain ⟨generic, written, erases⟩ := reference_of_field written plain bare starts
    exact ⟨generic, parse_eq_ok_iff.mpr written, erases⟩
  constructor
  · intro type read
    obtain ⟨generic, parsed, erases⟩ := forth type (JavaType.parse_eq_ok_iff.mp read)
    exact ⟨generic, parsed, erases.erased, erases.names, erases.argumentNames⟩
  · intro generic read closed few
    obtain ⟨type, written⟩ := field_of_reference (parse_eq_ok_iff.mp read) plain bare closed few
    obtain ⟨other, parsed, erases⟩ := forth type written
    rw [read] at parsed
    cases parsed
    exact ⟨type, JavaType.parse_eq_ok_iff.mpr written, erases.erased⟩

/-- A matrix of `p.A`. -/
def matrix : TypeSignature := .array (.array (.classType "p.A" []))

theorem not_hasVariable_matrix : ¬ matrix.HasVariable := by
  intro held
  obtain ⟨⟩ | ⟨⟩ | ⟨⟨⟩ | ⟨⟩ | ⟨inside⟩⟩ := held
  cases inside with
  | argument there => cases there

theorem parsers_agree_matrix :
    '.' ∉ "[[Lp/A;".toList ∧ '<' ∉ "[[Lp/A;".toList ∧ "[[Lp/A;".toList.head? = some '[' ∧
    JavaType.parse "[[Lp/A;" = .ok (.array (.object "p.A") 2) ∧ parse "[[Lp/A;" = .ok matrix ∧
    ¬ matrix.HasVariable ∧ matrix.levels ≤ 255 ∧
    matrix.erase? = some (.array (.object "p.A") 2) ∧ matrix.classNames = ["p.A"] ∧
    matrix.argumentClassNames = [] := by
  have plain : '.' ∉ "[[Lp/A;".toList := by decide
  have bare : '<' ∉ "[[Lp/A;".toList := by decide
  have starts : "[[Lp/A;".toList.head? = some '[' := by decide
  have few : matrix.levels ≤ 255 := by decide
  have word : Scan.IsWord ['<', '.', ';'] "p/A".toList := ⟨by simp, by simp⟩
  have named : ReferenceWritten "Lp/A;".toList (.classType "p.A" []) :=
    .mk (.classType (classForm_of_word word))
  have written : parse "[[Lp/A;" = .ok matrix :=
    parse_eq_ok_iff.mpr (.mk (.array (.reference (.mk (.array (.reference named))))))
  have agree := parsers_agree plain bare (.inr starts)
  obtain ⟨type, read, erased⟩ := agree.2 matrix written not_hasVariable_matrix few
  obtain ⟨generic, parsed, erased', names, argumentNames⟩ := agree.1 type read
  rw [written] at parsed
  cases parsed
  have same : matrix.erase? = some (.array (.object "p.A") 2) := by decide
  rw [same] at erased
  cases erased
  exact ⟨plain, bare, starts, read, written, not_hasVariable_matrix, few, same, names,
    argumentNames⟩

end TypeSignature

end ClassAtlas
