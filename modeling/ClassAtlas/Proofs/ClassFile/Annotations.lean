import ClassAtlas.Proofs.ClassFile.Constants

/-!
# Annotations read back

* `reads_operand`: an operand is read as what it carries;
* `reads_elementValue`: an element value of any nesting is read back, since every level takes a
  byte and the bytes at hand bound the levels;
* `reads_annotations`: the content of an annotation attribute is read back.
-/

namespace ClassAtlas.ClassFile

open Reader

variable {constants : List ConstantForm}

theorem reads_operand {α : Type} {Designates : UInt16 → α → Prop}
    {select : UInt16 → Except ClassFileError α} (form : Operand Designates)
    (h : select form.index = .ok form.value) :
    Reads (operand select) form.bytes form.value :=
  (reads_index form.index).bind_nil (reads_lift h)

theorem reads_name (form : Operand (NamesText constants)) :
    Reads (operand (poolOf constants).text) form.bytes form.value :=
  reads_operand form (text_of_names form.designates)

theorem reads_className (form : Operand (NamesClass constants)) :
    Reads (operand (poolOf constants).className) form.bytes form.value :=
  reads_operand form (className_of_names form.designates)

/-- A text that is read as a value: first its index, then what is written there. -/
theorem reads_parsed {α β : Type} {parse : String → Except ClassFileError α}
    {next : α → Reader β} {more : Bytes} {b : β} (form : Operand (NamesParsed constants parse))
    (h : Reads (next form.value) more b) :
    Reads (operand (poolOf constants).text >>= fun text => lift (parse text) >>= next)
      (form.bytes ++ more) b := by
  obtain ⟨text, names, parsed⟩ := form.designates
  have told : Reads (operand (poolOf constants).text) form.bytes text :=
    (reads_index form.index).bind_nil (reads_lift (text_of_names names))
  exact told.bind (reads_lift_bind parsed h)

theorem reads_object {β : Type} {next : String → Reader β} {more : Bytes} {b : β}
    (form : Operand (NamesObject constants)) (h : Reads (next form.value) more b) :
    Reads (operand (poolOf constants).text >>= fun text => lift (objectName text) >>= next)
      (form.bytes ++ more) b := by
  obtain ⟨text, names, parsed⟩ := form.designates
  have told : Reads (operand (poolOf constants).text) form.bytes text :=
    (reads_index form.index).bind_nil (reads_lift (text_of_names names))
  have object : objectName text = .ok form.value := by
    rw [objectName, parsed]
    rfl
  exact told.bind (reads_lift_bind object h)

theorem literalType_of_parse {text : String} {type : JavaType}
    (h : JavaType.parse text = .ok type) : literalType text = .ok type := by
  unfold literalType
  split
  · rename_i hv
    subst hv
    have refused : JavaType.parse "V" = .error (.badDescriptor "V") := rfl
    rw [refused] at h
    cases h
  · exact h

theorem reads_literal (form : Operand (NamesLiteral constants)) :
    Reads (operand (poolOf constants).text >>= fun text => lift (literalType text) >>=
      fun type => pure (ElementValue.classLiteral type)) form.bytes
      (.classLiteral form.value) := by
  obtain ⟨text, names, told⟩ : ∃ text, NamesText constants form.index text ∧
      literalType text = .ok form.value := by
    rcases form.designates with ⟨names, void⟩ | ⟨text, names, parsed⟩
    · exact ⟨"V", names, by rw [void]; rfl⟩
    · exact ⟨text, names, literalType_of_parse parsed⟩
  have read : Reads (operand (poolOf constants).text) form.bytes text :=
    (reads_index form.index).bind_nil (reads_lift (text_of_names names))
  exact read.bind_nil (reads_lift_bind told (Reads.pure _))

/-! ## Lists of forms -/

theorem bytesOfValues_eq (values : List (ElementForm constants)) :
    bytesOfValues values = values.flatMap ElementForm.bytes := by
  induction values with
  | nil => rfl
  | cons value values ih => rw [bytesOfValues, ih, List.flatMap_cons]

theorem valuesOfForms_eq (visible : Bool) (values : List (ElementForm constants)) :
    valuesOfForms visible values = values.map (ElementForm.value visible) := by
  induction values with
  | nil => rfl
  | cons value values ih => rw [valuesOfForms, ih, List.map_cons]

theorem valuesFit_iff (values : List (ElementForm constants)) :
    ValuesFit values ↔ ∀ value ∈ values, value.Fits := by
  induction values with
  | nil => simp [ValuesFit]
  | cons value values ih => simp [ValuesFit, ih]

theorem bytesOfElements_eq
    (elements : List (Operand (NamesText constants) × ElementForm constants)) :
    bytesOfElements elements = elements.flatMap fun e => e.1.bytes ++ e.2.bytes := by
  induction elements with
  | nil => rfl
  | cons e elements ih => rw [bytesOfElements, ih, List.flatMap_cons]

theorem elementsOfForms_eq (visible : Bool)
    (elements : List (Operand (NamesText constants) × ElementForm constants)) :
    elementsOfForms visible elements =
      elements.map fun e => .mk e.1.value (e.2.value visible) := by
  induction elements with
  | nil => rfl
  | cons e elements ih => rw [elementsOfForms, ih, List.map_cons]

theorem elementsFit_iff
    (elements : List (Operand (NamesText constants) × ElementForm constants)) :
    ElementsFit elements ↔ ∀ e ∈ elements, e.2.Fits := by
  induction elements with
  | nil => simp [ElementsFit]
  | cons e elements ih => simp [ElementsFit, ih]

theorem length_le_length_flatMap {α : Type} {items : List α} {f : α → Bytes} {a : α}
    (h : a ∈ items) : (f a).length ≤ (items.flatMap f).length := by
  obtain ⟨front, rest, rfl⟩ := List.append_of_mem h
  simp only [List.flatMap_append, List.flatMap_cons, List.length_append]
  omega

/-! ## Element values and annotations -/

/-- An annotation is read back wherever its element values are. -/
theorem reads_annotationItem {visible : Bool} {reader : Reader ElementValue}
    {form : AnnotationForm constants} (fits : form.Fits)
    (h : ∀ type elements, form = .mk type elements → ∀ e ∈ elements,
      Reads reader e.2.bytes (e.2.value visible)) :
    Reads (annotationItem (poolOf constants) visible reader) form.bytes
      (form.annotation visible) := by
  obtain ⟨type, elements⟩ := form
  have item : ∀ e ∈ elements, Reads (readElement (poolOf constants) reader)
      (e.1.bytes ++ e.2.bytes) (.mk e.1.value (e.2.value visible)) := fun e he =>
    (reads_name e.1).bind ((h type elements rfl e he).map _)
  rw [AnnotationForm.bytes, AnnotationForm.annotation, bytesOfElements_eq, elementsOfForms_eq]
  refine reads_object type ?_
  refine (reads_u2 _).bind ?_
  rw [toNat_ofNat_u2 fits.1]
  exact (reads_times item).map _

theorem length_bytes_pos (form : ElementForm constants) : 0 < form.bytes.length := by
  cases form <;> simp only [ElementForm.bytes, List.length_append, length_word1] <;> omega

/-- Each level of nesting costs a byte, so a depth of as many levels as there are bytes suffices. -/
theorem reads_elementValueWithin (visible : Bool) (depth : Nat) (form : ElementForm constants)
    (fits : form.Fits) (enough : form.bytes.length ≤ depth) :
    Reads (elementValueWithin (poolOf constants) visible depth) form.bytes
      (form.value visible) := by
  induction depth generalizing form with
  | zero =>
    have := length_bytes_pos form
    omega
  | succ depth ih =>
    rw [elementValueWithin]
    cases form with
    | integral kind form =>
      have value := reads_operand form (integer_of_standsAt form.designates)
      cases kind <;> exact (reads_u1 _).bind (value.map _)
    | long form =>
      exact (reads_u1 _).bind ((reads_operand form (long_of_standsAt form.designates)).map _)
    | float form =>
      exact (reads_u1 _).bind ((reads_operand form (float_of_standsAt form.designates)).map _)
    | double form =>
      exact (reads_u1 _).bind ((reads_operand form (double_of_standsAt form.designates)).map _)
    | string form => exact (reads_u1 _).bind ((reads_name form).map _)
    | enum type constant =>
      exact (reads_u1 _).bind (reads_object type ((reads_name constant).map _))
    | classLiteral type => exact (reads_u1 _).bind (reads_literal type)
    | nested form =>
      refine (reads_u1 _).bind ((reads_annotationItem fits ?_).map _)
      rintro type elements rfl e he
      have part := length_le_length_flatMap (f := fun e => e.1.bytes ++ e.2.bytes) he
      simp only [ElementForm.bytes, AnnotationForm.bytes, bytesOfElements_eq, List.length_append,
        length_word1, length_word2] at enough part
      exact ih e.2 ((elementsFit_iff elements).mp fits.2 e he) (by omega)
    | array values =>
      have item : ∀ value ∈ values, Reads (elementValueWithin (poolOf constants) visible depth)
          value.bytes (value.value visible) := by
        intro value hv
        have part := length_le_length_flatMap (f := ElementForm.bytes) hv
        simp only [ElementForm.bytes, bytesOfValues_eq, List.length_append, length_word1,
          length_word2] at enough
        exact ih value ((valuesFit_iff values).mp fits.2 value hv) (by omega)
      rw [ElementForm.bytes, ElementForm.value, bytesOfValues_eq, valuesOfForms_eq]
      refine (reads_u1 _).bind ((reads_u2 _).bind ?_)
      rw [toNat_ofNat_u2 fits.1]
      exact (reads_times item).map _

theorem reads_elementValue (visible : Bool) (form : ElementForm constants) (fits : form.Fits) :
    Reads (elementValue (poolOf constants) visible) form.bytes (form.value visible) := by
  intro rest
  have enough : form.bytes.length ≤ (form.bytes ++ rest).length := by
    rw [List.length_append]
    omega
  exact reads_elementValueWithin visible _ form fits enough rest

theorem reads_annotation (visible : Bool) (form : AnnotationForm constants) (fits : form.Fits) :
    Reads (annotationItem (poolOf constants) visible (elementValue (poolOf constants) visible))
      form.bytes (form.annotation visible) := by
  apply reads_annotationItem fits
  rintro type elements rfl e he
  exact reads_elementValue visible e.2 ((elementsFit_iff elements).mp fits.2 e he)

theorem reads_annotations (visible : Bool) {forms : List (AnnotationForm constants)}
    (fits : AnnotationsFit forms) :
    Reads (readAnnotations (poolOf constants) visible) (annotationBytes forms)
      (forms.map (AnnotationForm.annotation visible)) :=
  reads_counted fits.1 fun form h => reads_annotation visible form (fits.2 form h)

theorem reads_parameterAnnotations (visible : Bool)
    {slots : List (List (AnnotationForm constants))} (count : slots.length < 0x100)
    (fits : ∀ forms ∈ slots, AnnotationsFit forms) :
    Reads (readParameterAnnotations (poolOf constants) visible)
      (word1 slots.length ++ slots.flatMap annotationBytes)
      (slots.map fun forms => forms.map (AnnotationForm.annotation visible)) := by
  refine (reads_u1 _).bind ?_
  have counted : (UInt8.ofNat slots.length).toNat = slots.length := by
    rw [UInt8.toNat_ofNat']
    omega
  rw [counted]
  exact reads_times fun forms h => reads_annotations visible (fits forms h)

end ClassAtlas.ClassFile
