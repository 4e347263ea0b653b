import ClassAtlas.Proofs.Descriptor.Rendered
import ClassAtlas.Proofs.Signature.Written

/-!
# Generic types read back

The type that a field signature names is read from its written form. Class names are written without
inner-class suffixes, so that a text with such suffixes is read to a type that is written
differently; a text without dots has none, and is written again as it was.

* `written_render`: what `render` writes follows the grammar;
* `render_of_written`: what follows the grammar without a dot is what `render` writes;
* `fields_exact`: both, of the reader.
-/

namespace ClassAtlas.TypeSignature

/-- A class name that a signature can hold, with dots. -/
structure Nameable (name : String) : Prop extends JavaType.Nameable name where
  bare : '<' ∉ name.toList

instance (name : String) : Decidable (Nameable name) :=
  decidable_of_iff (name ≠ "" ∧ ';' ∉ name.toList ∧ '/' ∉ name.toList ∧ '<' ∉ name.toList)
    ⟨fun ⟨filled, unended, dotted, bare⟩ => ⟨⟨filled, unended, dotted⟩, bare⟩,
      fun h => ⟨h.nonempty, h.unended, h.dotted, h.bare⟩⟩

mutual

/-- The types that fields have signatures for. -/
inductive IsReference : TypeSignature → Prop
  | classType {name : String} {arguments : List TypeArgument} (nameable : Nameable name)
    (each : ∀ argument ∈ arguments, IsArgument argument) : IsReference (.classType name arguments)
  | typeVariable {name : String} (nonempty : name ≠ "") (unended : ';' ∉ name.toList) :
    IsReference (.typeVariable name)
  | array {element : TypeSignature} (h : IsJava element) : IsReference (.array element)

/-- The types of values: `void` is none of them. -/
inductive IsJava : TypeSignature → Prop
  | base (type : Primitive) : IsJava (.base type)
  | reference {type : TypeSignature} (h : IsReference type) : IsJava type

inductive IsArgument : TypeArgument → Prop
  | any : IsArgument .any
  | upper {bound : TypeSignature} (h : IsReference bound) : IsArgument (.upper bound)
  | lower {bound : TypeSignature} (h : IsReference bound) : IsArgument (.lower bound)
  | exactly {type : TypeSignature} (h : IsReference type) : IsArgument (.exactly type)

end

/-! ## What is rendered is written -/

theorem renderMore_eq (arguments : List TypeArgument) :
    renderMore arguments = (arguments.map renderArgument).flatten ++ ['>'] := by
  induction arguments with
  | nil => rfl
  | cons argument others ih => simp [renderMore, ih]

theorem renderArguments_eq {arguments : List TypeArgument} (filled : arguments ≠ []) :
    renderArguments arguments = '<' :: ((arguments.map renderArgument).flatten ++ ['>']) := by
  cases arguments with
  | nil => exact absurd rfl filled
  | cons argument others => simp [renderArguments, renderMore_eq]

section Written

variable {Reference : List Char → TypeSignature → Prop}

theorem argumentsForm_render {arguments : List TypeArgument}
    (each : ∀ argument ∈ arguments, ArgumentForm Reference (renderArgument argument) argument) :
    ArgumentsForm Reference (renderArguments arguments) arguments := by
  by_cases filled : arguments = []
  · subst filled
    exact .none
  · rw [renderArguments_eq filled]
    refine .some filled ?_
    rw [List.forall₂_map_left_iff, List.forall₂_same]
    exact each

/-- A name with dots is a single part of a class type, with slashes. -/
theorem isWord_slashed {name : String} (h : Nameable name) :
    Scan.IsWord ['<', '.', ';'] (ClassName.slashed name.toList) where
  nonempty := by simpa [ClassName.slashed] using h.nonempty
  plain c inside ends := by
    simp only [List.mem_cons, List.not_mem_nil, or_false] at ends
    rcases ClassName.mem_slashed inside with slash | ⟨other, inside⟩
    · subst slash
      exact absurd ends (by decide)
    · rcases ends with bracket | dot | semicolon
      · exact h.bare (bracket ▸ inside)
      · exact other dot
      · exact h.unended (semicolon ▸ inside)

theorem classForm_render {name : String} {arguments : List TypeArgument} (h : Nameable name)
    (own : ArgumentsForm Reference (renderArguments arguments) arguments) :
    ClassForm Reference (classType name arguments).render (classType name arguments) := by
  have part : PartForm Reference (ClassName.slashed name.toList ++ renderArguments arguments)
      (ClassName.slashed name.toList, arguments) := .mk (isWord_slashed h) own
  have form := ClassForm.mk part .nil
  simpa [List.intercalate, ClassName.dotted_slashed h.dotted, render] using form

end Written

-- The recursion is that of `render`, on the tree: types, lists of arguments, single arguments.
mutual

theorem written_render : (type : TypeSignature) → IsReference type →
    ReferenceWritten type.render type
  | .classType name arguments, h => by
    cases h with
    | classType nameable each =>
      have own := argumentsForm_render (written_arguments arguments each)
      exact .mk (.classType (classForm_render nameable own))
  | .typeVariable name, h => by
    cases h with
    | typeVariable nonempty unended =>
      have filled : name.toList ≠ [] := by simpa using nonempty
      have form : ReferenceForm ReferenceWritten _ _ := .typeVariable filled unended
      rw [String.ofList_toList] at form
      exact .mk form
  | .array element, h => by
    cases h with
    | array h =>
      cases h with
      | base type => exact .mk (.array (.base type))
      | reference h => exact .mk (.array (.reference (written_render element h)))

theorem written_arguments : (arguments : List TypeArgument) →
    (∀ argument ∈ arguments, IsArgument argument) →
    ∀ argument ∈ arguments, ArgumentForm ReferenceWritten (renderArgument argument) argument
  | [], _ => List.forall_mem_nil _
  | argument :: others, each => by
    rw [List.forall_mem_cons] at each ⊢
    exact ⟨written_argument argument each.1, written_arguments others each.2⟩

theorem written_argument : (argument : TypeArgument) → IsArgument argument →
    ArgumentForm ReferenceWritten (renderArgument argument) argument
  | .any, _ => .any
  | .upper bound, h => by
    cases h with
    | upper h => exact .upper (written_render bound h)
  | .lower bound, h => by
    cases h with
    | lower h => exact .lower (written_render bound h)
  | .exactly type, h => by
    cases h with
    | exactly h => exact .exactly (written_render type h)

end

/-! ## What is written is rendered -/

/-- If the text has no dots, it is what the type is rendered as. -/
def RendersPlain (text : List Char) (type : TypeSignature) : Prop :=
  '.' ∉ text → type.render = text

section Plain

variable {text : List Char}

theorem JavaForm.render {type : TypeSignature} (h : JavaForm RendersPlain text type) :
    RendersPlain text type := by
  intro plain
  cases h with
  | base type => rfl
  | reference h => exact h plain

theorem ArgumentForm.render {argument : TypeArgument} (h : ArgumentForm RendersPlain text argument)
    (plain : '.' ∉ text) : renderArgument argument = text := by
  cases h with
  | any => rfl
  | upper h | lower h =>
    simp only [List.mem_cons, not_or] at plain
    simp [renderArgument, h plain.2]
  | exactly h => simp [renderArgument, h plain]

theorem map_renderArgument_eq {texts : List (List Char)} {arguments : List TypeArgument}
    (each : List.Forall₂ (ArgumentForm RendersPlain) texts arguments)
    (plain : '.' ∉ texts.flatten) : arguments.map renderArgument = texts := by
  induction each with
  | nil => rfl
  | cons first _ ih =>
    simp only [List.flatten_cons, List.mem_append, not_or] at plain
    simp [first.render plain.1, ih plain.2]

theorem ArgumentsForm.render {arguments : List TypeArgument}
    (h : ArgumentsForm RendersPlain text arguments)
    (plain : '.' ∉ text) : renderArguments arguments = text := by
  cases h with
  | none => rfl
  | some filled each =>
    simp only [List.mem_cons, List.mem_append, not_or] at plain
    rw [renderArguments_eq filled, map_renderArgument_eq each plain.2.1]

/-- Without dots, a class type has no inner-class suffixes. -/
theorem ClassForm.render {type : TypeSignature} (h : ClassForm RendersPlain text type) :
    RendersPlain text type := by
  intro plain
  cases h with
  | @mk text outer own texts inner first others =>
    cases others with
    | cons => exact absurd plain (by simp [intercalate_cons])
    | nil =>
      cases first with
      | @mk _ behind _ named form =>
        have apart : '.' ∉ outer ∧ '.' ∉ behind := by
          constructor <;> intro inside <;> exact plain (by simp [inside])
        simp [TypeSignature.render, List.intercalate, ClassName.slashed_dotted apart.1,
          form.render apart.2]

end Plain

theorem render_of_written {text : List Char} {type : TypeSignature} (h : ReferenceWritten text type)
    (plain : '.' ∉ text) : type.render = text := by
  refine ReferenceWritten.induction (motive := RendersPlain) ?_ h plain
  intro text type form plain
  cases form with
  | classType h => exact (h.imp fun _ _ inside _ => inside.2.2).render plain
  | typeVariable => simp [render]
  | array h =>
    simp only [List.mem_cons, not_or] at plain
    simp [render, (h.imp fun _ _ inside _ => inside.2.2).render plain.2]

/-! ## Field signatures -/

/-- Reading field signatures, against the grammar and against the written form. -/
structure FieldsExact : Prop where
  /-- Exactly what follows the grammar is accepted, with the type that it is written for. -/
  accepts : ∀ signature type,
    parse signature = .ok type ↔ ReferenceWritten signature.toList type
  /-- Anything else is refused, and the text is told. -/
  refuses : ∀ signature error, parse signature = .error error ↔
    (¬ ∃ type, ReferenceWritten signature.toList type) ∧ error = .badSignature signature
  /-- What is rendered is read back. -/
  reads : ∀ type, IsReference type → parse (String.ofList type.render) = .ok type
  /-- The names of a class and of its inner classes are joined by `$`, and their arguments follow
  one another. -/
  joins : ∀ text outer own texts inner, PartForm ReferenceWritten text (outer, own) →
    List.Forall₂ (PartForm ReferenceWritten) texts inner →
    parse (String.ofList ('L' :: (['.'].intercalate (text :: texts) ++ [';']))) =
      .ok (classType
        (String.ofList (['$'].intercalate (ClassName.dotted outer :: inner.map Prod.fst)))
        (own ++ inner.flatMap Prod.snd))
  /-- What is read from a text without dots is rendered as that text. -/
  renders : ∀ signature type, parse signature = .ok type → '.' ∉ signature.toList →
    String.ofList type.render = signature

/-- Field signatures are read exactly as the grammar has them. Reading takes rendering back, and
rendering takes back the reading of whatever has no inner-class suffix. -/
theorem fields_exact : FieldsExact where
  accepts _ _ := parse_eq_ok_iff
  refuses _ _ := parse_eq_error_iff
  reads type h := by
    rw [parse_eq_ok_iff, String.toList_ofList]
    exact written_render type h
  joins text outer own texts inner first others := by
    rw [parse_eq_ok_iff, String.toList_ofList]
    exact .mk (.classType (.mk first others))
  renders signature type read plain := by
    rw [render_of_written (parse_eq_ok_iff.mp read) plain, String.ofList_toList]

theorem fields_exact_array :
    parse "[Lp/A<+TX;*>;" = .ok (.array (.classType "p.A" [.upper (.typeVariable "X"), .any])) := by
  have whole : IsReference (.array (.classType "p.A" [.upper (.typeVariable "X"), .any])) := by
    refine .array (.reference (.classType (by decide) ?_))
    rw [List.forall_mem_cons, List.forall_mem_singleton]
    exact ⟨.upper (.typeVariable (by decide) (by decide)), .any⟩
  have text : render (.array (.classType "p.A" [.upper (.typeVariable "X"), .any])) =
      "[Lp/A<+TX;*>;".toList := by decide
  have read := fields_exact.reads _ whole
  rwa [text, String.ofList_toList] at read

example : parse "Lp/A<TX;>.B<TY;>;" = .ok (.classType "p.A$B"
    [.exactly (.typeVariable "X"), .exactly (.typeVariable "Y")]) := by cbv

end ClassAtlas.TypeSignature
