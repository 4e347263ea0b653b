import ClassAtlas.Proofs.ClassFile.Attributes

/-!
# Class files read back

`decode_bytes`: the layout of every class form that fits is decoded to the class it declares,
whatever stands behind it.
-/

namespace ClassAtlas

namespace ClassFile

open Reader

/-! ## Members -/

section Members

variable {constants : List ConstantForm}

theorem reads_field {form : FieldForm constants} (fits : form.Fits) :
    Reads (readField (poolOf constants)) form.bytes form.decl := by
  refine (reads_index form.access).bind ((reads_name form.name).bind (reads_parsed form.type ?_))
  exact reads_table fits fun front next h => tells_field form front (fits.2 next h)

theorem reads_method {form : MethodForm constants} (fits : form.Fits) :
    Reads (readMethod (poolOf constants)) form.bytes form.decl := by
  refine (reads_index form.access).bind ((reads_name form.name).bind (reads_parsed form.type ?_))
  exact reads_table fits fun front next h => tells_method form front (fits.2 next h)

end Members

/-! ## Classes -/

theorem reads_version {minor major : UInt16} (h : 45 ≤ major.toNat ∧ major.toNat ≤ 69) :
    Reads readVersion (word4 0xCAFEBABE ++ (word2 minor.toNat ++ word2 major.toNat))
      (major, minor) := by
  have supported : supports major = true := by
    rw [supports, Bool.and_eq_true, decide_eq_true_iff, decide_eq_true_iff]
    exact h
  refine (reads_u4 _).bind ?_
  rw [if_neg (by decide)]
  refine (reads_index minor).bind ((reads_index major).bind_nil ?_)
  rw [if_pos supported]
  exact Reads.pure _

theorem reads_superclass {constants : List ConstantForm}
    (form : Option (Operand (NamesClass constants))) :
    Reads (operand (optionalClassName (poolOf constants))) (word2 (optionalIndex form).toNat)
      (form.map Operand.value) :=
  (reads_index _).bind_nil (reads_lift (optionalClassName_eq form))

theorem reads_class {form : ClassForm} (fits : form.Fits) :
    Reads readClass form.bytes form.decl := by
  have front : form.bytes = (word4 0xCAFEBABE ++ (word2 form.minorVersion.toNat ++
      word2 form.majorVersion.toNat)) ++ (poolBytes form.constants ++ (word2 form.access.toNat ++
        (form.name.bytes ++ (word2 (optionalIndex form.superclass).toNat ++
          ((word2 form.interfaces.length ++ form.interfaces.flatMap Operand.bytes) ++
            ((word2 form.fields.length ++ form.fields.flatMap FieldForm.bytes) ++
              ((word2 form.methods.length ++ form.methods.flatMap MethodForm.bytes) ++
                tableBytes form.attributes))))))) := by
    simp only [ClassForm.bytes, List.append_assoc]
  rw [front]
  refine (reads_version fits.version).bind ((reads_pool fits.constants).bind ?_)
  refine (reads_index form.access).bind ((reads_index form.name.index).bind ?_)
  refine reads_lift_bind (className_of_names form.name.designates) ?_
  refine (reads_superclass form.superclass).bind ?_
  refine reads_counted_bind fits.interfaces (fun name _ => reads_className name) ?_
  refine reads_counted_bind fits.fields (fun field h => reads_field (fits.eachField field h)) ?_
  refine reads_counted_bind fits.methods
    (fun method h => reads_method (fits.eachMethod method h)) ?_
  exact reads_table fits.attributes fun front next h =>
    tells_class form front (fits.attributes.2 next h)

end ClassFile

open ClassFile in
/-- A class file of any form that fits is decoded to the class that the form declares. -/
theorem ClassDecl.decode_bytes (form : ClassForm) (fits : form.Fits) (rest : Bytes) :
    ClassDecl.decode (form.bytes ++ rest) = .ok form.decl := by
  rw [ClassDecl.decode]
  show (ClassFile.readClass (form.bytes ++ rest)).map Prod.fst = _
  rw [reads_class fits rest]
  rfl

namespace ClassFile

/-! ## A small class -/

/-- The constant at a place in the list stands at the index behind the slots in front of it. -/
theorem standsAt_of_getElem? {constants : List ConstantForm} {form : ConstantForm} {index : UInt16}
    (place : Nat) (h : constants[place]? = some form)
    (hi : index.toNat = 1 + slotCount (constants.take place)) :
    StandsAt constants index form := by
  refine ⟨constants.take place, constants.drop (place + 1), ?_, hi⟩
  obtain ⟨inside, rfl⟩ := List.getElem?_eq_some_iff.mp h
  rw [List.getElem_cons_drop, List.take_append_drop]

/-- The code units of a text that needs no surrogates. -/
def unitsOf (text : String) : List UInt16 := text.toList.map fun c => UInt16.ofNat c.toNat

/-- Texts, two classes, a number of two slots, and a method handle that nothing refers to. -/
def counterConstants : List ConstantForm :=
  [.methodHandle 6 2, .classRef 5, .long 7, .text (unitsOf "p/C"),
    .text (unitsOf "java/lang/Object"), .classRef 6, .text (unitsOf "SourceFile"),
    .text (unitsOf "C.j"), .text (unitsOf "N"), .text (unitsOf "J"),
    .text (unitsOf "ConstantValue"), .text (unitsOf "Stamp"), .text (unitsOf "(J)V")]

theorem counterConstants_names {index : UInt16} {text : String} (place : Nat)
    (h : counterConstants[place]? = some (.text (unitsOf text)))
    (hi : index.toNat = 1 + slotCount (counterConstants.take place))
    (ht : text = unitText (unitsOf text)) : NamesText counterConstants index text :=
  ⟨unitsOf text, standsAt_of_getElem? place h hi, ht⟩

/-- A class `p.C` with a field `N` that starts with seven, a method `N` and an attribute `Stamp`,
which nobody knows. -/
def counterForm : ClassForm where
  minorVersion := 0
  majorVersion := 69
  constants := counterConstants
  access := 0x21
  name := ⟨2, "p.C", 5, "p/C", standsAt_of_getElem? 1 rfl rfl,
    counterConstants_names 3 rfl rfl (by decide), by decide⟩
  superclass := some ⟨7, "java.lang.Object", 6, "java/lang/Object",
    standsAt_of_getElem? 5 rfl rfl, counterConstants_names 4 rfl rfl (by decide), by decide⟩
  interfaces := []
  fields :=
    [{ access := 0x18
       name := ⟨10, "N", counterConstants_names 8 rfl rfl (by decide)⟩
       type := ⟨11, .primitive .long, "J", counterConstants_names 9 rfl rfl (by decide), rfl⟩
       attributes :=
         [⟨.initial ⟨3, .long 7, .long (standsAt_of_getElem? 2 rfl rfl)⟩, 12,
           counterConstants_names 10 rfl rfl (by decide)⟩] }]
  methods :=
    [{ access := 1
       name := ⟨10, "N", counterConstants_names 8 rfl rfl (by decide)⟩
       type := ⟨14, ⟨[.primitive .long], .void⟩, "(J)V",
         counterConstants_names 12 rfl rfl (by decide), rfl⟩
       attributes :=
         [⟨.unknown "Stamp" (by decide) [1], 13, counterConstants_names 11 rfl rfl (by decide)⟩] }]
  attributes :=
    [⟨.unknown "Stamp" (by decide) [1, 2, 3], 13,
        counterConstants_names 11 rfl rfl (by decide)⟩,
      ⟨.sourceFile ⟨9, "C.j", counterConstants_names 7 rfl rfl (by decide)⟩, 8,
        counterConstants_names 6 rfl rfl (by decide)⟩]

theorem counterForm_fits : counterForm.Fits where
  version := by decide
  constants := ⟨by decide, by simp [counterForm, counterConstants, ConstantForm.Fits]; decide⟩
  interfaces := by decide
  fields := by decide
  eachField := by
    intro field h
    rw [List.mem_singleton.mp h]
    refine ⟨by decide, fun form hf => ?_⟩
    rw [List.mem_singleton.mp hf]
    exact ⟨by decide, trivial⟩
  methods := by decide
  eachMethod := by
    intro method h
    rw [List.mem_singleton.mp h]
    refine ⟨by decide, fun form hf => ?_⟩
    rw [List.mem_singleton.mp hf]
    exact ⟨by decide, trivial⟩
  attributes := by
    refine ⟨by decide, fun form hf => ?_⟩
    rcases List.mem_cons.mp hf with rfl | hf
    · exact ⟨by decide, trivial⟩
    · rw [List.mem_singleton.mp hf]
      exact ⟨by decide, trivial⟩

/-- The class is read back with what it declares, in front of two bytes that are none of it. -/
theorem decode_bytes_counterForm : counterForm.Fits ∧
    ClassDecl.decode (counterForm.bytes ++ [0xCA, 0xFE]) = .ok
      { name := "p.C"
        superclass := some "java.lang.Object"
        interfaces := []
        access := ⟨0x21⟩
        majorVersion := 69
        minorVersion := 0
        fields := [{
          name := "N", access := ⟨0x18⟩, type := .primitive .long, signature := none,
          constant := some (.long 7), annotations := [] }]
        methods := [{
          name := "N", access := ⟨1⟩, parameters := [.primitive .long], returnType := .void,
          exceptions := [], signature := none, annotations := [], parameterAnnotations := [] }]
        annotations := []
        signature := none
        sourceFile := some "C.j"
        enclosingClass := none } :=
  ⟨counterForm_fits, ClassDecl.decode_bytes counterForm counterForm_fits [0xCA, 0xFE]⟩

end ClassFile

end ClassAtlas
