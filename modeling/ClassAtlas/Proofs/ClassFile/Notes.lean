import ClassAtlas.Proofs.ClassFile.Alike
import ClassAtlas.Proofs.ClassFile.Confined

/-!
# What single attributes tell

An attribute tells a note: what it sets and what it adds, whatever the declaration is that the
attributes in front of it left. A table is applied note by note (`tableTold_eq_noted`).

* `reviseField_eq`, `reviseMethod_eq`, `reviseClass_eq`: a declaration is revised by reading a note
  and applying it;
* `fieldNote_from`, `methodNote_from`, `classNote_from`: the name of an attribute tells which parts
  its note can have;
* `declaresOuter_of_enclosing`: the table of inner classes tells an enclosing class only if an entry
  about the class itself has one.
-/

namespace ClassAtlas

namespace Reader

variable {α β σ ν : Type}

/-- Whatever the reader gives has this property. -/
def Gives (reader : Reader α) (P : α → Prop) : Prop :=
  ∀ (bytes rest : Bytes) (a : α), reader bytes = .ok (a, rest) → P a

theorem gives_pure {P : α → Prop} {a : α} (h : P a) : Gives (pure a) P := by
  intro bytes rest b read
  cases read
  exact h

theorem Gives.bind {reader : Reader α} {next : α → Reader β} {P : α → Prop} {Q : β → Prop}
    (first : Gives reader P) (second : ∀ a, P a → Gives (next a) Q) :
    Gives (reader >>= next) Q := by
  intro bytes rest b read
  obtain ⟨a, left, readFirst, readSecond⟩ := bind_eq_ok read
  exact second a (first _ _ _ readFirst) _ _ _ readSecond

theorem gives_bind {reader : Reader α} {next : α → Reader β} {Q : β → Prop}
    (second : ∀ a, Gives (next a) Q) : Gives (reader >>= next) Q := by
  have anything : Gives reader fun _ => True := fun _ _ _ _ => trivial
  exact anything.bind fun a _ => second a

theorem Gives.times {item : Reader α} {P : α → Prop} (h : Gives item P) (count : Nat) :
    Gives (times count item) fun values => ∀ a ∈ values, P a := by
  induction count with
  | zero => exact gives_pure fun _ inside => absurd inside List.not_mem_nil
  | succ count ih =>
    refine h.bind fun first good => ih.bind fun others each => ?_
    exact gives_pure (List.forall_mem_cons.mpr ⟨good, each⟩)

/-- Steps that read a note and apply it read all the notes first, as well. -/
theorem iterate_eq_times {step : σ → Reader σ} {item : Reader ν} {apply : σ → ν → σ}
    (Good : σ → Prop) (h : ∀ state, Good state →
      step state = item >>= fun note => pure (apply state note))
    (keeps : ∀ state note, Good state → Good (apply state note)) (count : Nat) {state : σ}
    (good : Good state) :
    iterate count step state =
      times count item >>= fun notes => pure (notes.foldl apply state) := by
  induction count generalizing state with
  | zero => rw [iterate, times, pure_bind, List.foldl_nil]
  | succ count ih =>
    simp only [iterate, times, h state good, bind_assoc, pure_bind, List.foldl_cons]
    refine bind_congr fun note => ?_
    rw [ih (keeps state note good)]

end Reader

namespace ClassFile

open Reader

/-! ## Tables -/

section Tables

variable {δ ν : Type}

/-- What the attribute tells, read from its body alone. -/
def AttributeFrame.note (pool : ConstantPool) (read : String → Reader ν) (frame : AttributeFrame) :
    Except ClassFileError ν := do
  let name ← pool.text frame.nameIndex
  ((read name).run frame.body).map Prod.fst

theorem AttributeFrame.note_eq_ok {pool : ConstantPool} {read : String → Reader ν}
    {frame : AttributeFrame} {told : ν} (h : frame.note pool read = .ok told) :
    ∃ name rest, pool.text frame.nameIndex = .ok name ∧
      read name frame.body = .ok (told, rest) := by
  obtain ⟨name, named, h⟩ := ok_of_bind h
  obtain ⟨⟨told, rest⟩, result, rfl⟩ := ok_of_map h
  exact ⟨name, rest, named, result⟩

theorem tableTold_eq_noted {pool : ConstantPool} {revise : String → δ → Reader δ}
    {read : String → Reader ν} {apply : δ → ν → δ} (Good : δ → Prop)
    (h : ∀ name decl, Good decl →
      revise name decl = read name >>= fun note => pure (apply decl note))
    (keeps : ∀ decl note, Good decl → Good (apply decl note)) (table : List AttributeFrame)
    {decl : δ} (good : Good decl) :
    tableTold pool revise decl table = noted (AttributeFrame.note pool read) apply decl table := by
  induction table generalizing decl with
  | nil => rfl
  | cons frame table ih =>
    have told : frame.told pool revise decl = (frame.note pool read).map (apply decl) := by
      rw [AttributeFrame.told, AttributeFrame.note]
      cases pool.text frame.nameIndex with
      | error e => rfl
      | ok name =>
        show ((revise name decl) frame.body).map Prod.fst =
          ((read name frame.body).map Prod.fst).map (apply decl)
        rw [h name decl good]
        cases result : read name frame.body with
        | error e =>
          rw [bind_of_error result]
          rfl
        | ok p =>
          rw [bind_of_ok result]
          rfl
    rw [tableTold_cons, told]
    cases note : frame.note pool read with
    | error e => exact (noted_cons_of_error note table decl).symm
    | ok told => exact (ih (keeps decl told good)).trans (noted_cons_of_ok note table decl).symm

end Tables

/-! ## Annotations -/

section Annotations

variable (name : Bool → String) (pool : ConstantPool) (visible : Bool)

/-- All that is read has the visibility that was asked for, so that a name which depends on the
visibility alone is the same for all. -/
theorem gives_annotations :
    Gives (readAnnotations pool visible) fun annotations =>
      ∀ marked ∈ annotations, name visible = name marked.visible := by
  refine gives_bind fun count => Gives.times ?_ _
  refine gives_bind fun descriptor => gives_bind fun typeName => gives_bind fun count => ?_
  exact gives_bind fun elements => gives_pure rfl

theorem gives_parameterAnnotations :
    Gives (readParameterAnnotations pool visible) fun slots =>
      ∀ annotations ∈ slots, ∀ marked ∈ annotations, name visible = name marked.visible :=
  gives_bind fun _ => (gives_annotations name pool visible).times _

end Annotations

/-! ## Fields -/

/-- What an attribute of a field sets and adds. -/
structure FieldNote where
  signature : Option TypeSignature := none
  constant : Option ElementValue := none
  annotations : List Annotation := []

def FieldNote.apply (field : FieldDecl) (note : FieldNote) : FieldDecl :=
  { field with
    signature := note.signature.or field.signature
    constant := note.constant.or field.constant
    annotations := field.annotations ++ note.annotations }

/-- What an attribute of this name tells of a field of this type. -/
def fieldNote (pool : ConstantPool) (type : JavaType) (name : String) : Reader FieldNote := do
  match name with
  | "Signature" =>
    let text ← operand pool.text
    let signature ← Reader.lift (TypeSignature.parse text)
    return { signature := some signature }
  | "ConstantValue" =>
    let constant ← operand (pool.constantFor type)
    return { constant := some constant }
  | "RuntimeVisibleAnnotations" =>
    let annotations ← readAnnotations pool true
    return { annotations }
  | "RuntimeInvisibleAnnotations" =>
    let annotations ← readAnnotations pool false
    return { annotations }
  | _ => return {}

theorem reviseField_eq (pool : ConstantPool) (name : String) (field : FieldDecl) :
    reviseField pool name field =
      fieldNote pool field.type name >>= fun note => pure (note.apply field) := by
  unfold reviseField fieldNote
  split <;> simp [FieldNote.apply]

/-- The parts of a note that an attribute of this name can tell. -/
structure FieldNote.From (name : String) (note : FieldNote) : Prop where
  signature : note.signature ≠ none → name = "Signature"
  constant : note.constant ≠ none → name = "ConstantValue"
  annotations : ∀ marked ∈ note.annotations, name = annotationsName marked.visible

theorem fieldNote_from (pool : ConstantPool) (type : JavaType) (name : String) :
    Gives (fieldNote pool type name) (FieldNote.From name) := by
  unfold fieldNote
  split
  next =>
    refine gives_bind fun text => gives_bind fun signature => gives_pure ?_
    constructor <;> simp
  next =>
    refine gives_bind fun constant => gives_pure ?_
    constructor <;> simp
  next =>
    refine (gives_annotations annotationsName pool true).bind fun annotations all => gives_pure ?_
    refine ⟨by simp, by simp, all⟩
  next =>
    refine (gives_annotations annotationsName pool false).bind fun annotations all => gives_pure ?_
    refine ⟨by simp, by simp, all⟩
  next =>
    refine gives_pure ?_
    constructor <;> simp

/-! ## Methods -/

/-- What an attribute of a method sets and adds. -/
structure MethodNote where
  signature : Option MethodSignature := none
  exceptions : List String := []
  annotations : List Annotation := []
  parameterAnnotations : List (List Annotation) := []

def MethodNote.apply (method : MethodDecl) (note : MethodNote) : MethodDecl :=
  { method with
    signature := note.signature.or method.signature
    exceptions := method.exceptions ++ note.exceptions
    annotations := method.annotations ++ note.annotations
    parameterAnnotations := mergeSlots method.parameterAnnotations note.parameterAnnotations }

/-- What an attribute of this name tells of a method. -/
def methodNote (pool : ConstantPool) (name : String) : Reader MethodNote := do
  match name with
  | "Signature" =>
    let text ← operand pool.text
    let signature ← Reader.lift (MethodSignature.parse text)
    return { signature := some signature }
  | "Exceptions" =>
    let count ← Reader.u2
    let exceptions ← Reader.times count.toNat (operand pool.className)
    return { exceptions }
  | "RuntimeVisibleAnnotations" =>
    let annotations ← readAnnotations pool true
    return { annotations }
  | "RuntimeInvisibleAnnotations" =>
    let annotations ← readAnnotations pool false
    return { annotations }
  | "RuntimeVisibleParameterAnnotations" =>
    let parameterAnnotations ← readParameterAnnotations pool true
    return { parameterAnnotations }
  | "RuntimeInvisibleParameterAnnotations" =>
    let parameterAnnotations ← readParameterAnnotations pool false
    return { parameterAnnotations }
  | _ => return {}

section Slots

variable {α : Type}

@[simp] theorem mergeSlots_nil (slots : List (List α)) : mergeSlots slots [] = slots := by
  induction slots with
  | nil => rfl
  | cons slot slots ih =>
    show (slot ++ []) :: List.map (fun a => (some a).getD [] ++ []) slots = _
    simp

@[simp] theorem nil_mergeSlots (slots : List (List α)) : mergeSlots [] slots = slots := by
  cases slots with
  | nil => rfl
  | cons slot slots =>
    show ([] ++ slot) :: List.map (fun b => [] ++ (some b).getD []) slots = _
    simp

end Slots

theorem reviseMethod_eq (pool : ConstantPool) (name : String) (method : MethodDecl) :
    reviseMethod pool name method =
      methodNote pool name >>= fun note => pure (note.apply method) := by
  unfold reviseMethod methodNote
  split <;> simp [MethodNote.apply]

/-- The parts of a note that an attribute of this name can tell. -/
structure MethodNote.From (name : String) (note : MethodNote) : Prop where
  signature : note.signature ≠ none → name = "Signature"
  exceptions : note.exceptions ≠ [] → name = "Exceptions"
  annotations : ∀ marked ∈ note.annotations, name = annotationsName marked.visible
  parameterAnnotations : ∀ annotations ∈ note.parameterAnnotations, ∀ marked ∈ annotations,
    name = parameterAnnotationsName marked.visible

theorem methodNote_from (pool : ConstantPool) (name : String) :
    Gives (methodNote pool name) (MethodNote.From name) := by
  unfold methodNote
  split
  next =>
    refine gives_bind fun text => gives_bind fun signature => gives_pure ?_
    constructor <;> simp
  next =>
    refine gives_bind fun count => gives_bind fun exceptions => gives_pure ?_
    constructor <;> simp
  next =>
    refine (gives_annotations annotationsName pool true).bind fun annotations all => gives_pure ?_
    refine ⟨by simp, by simp, all, by simp⟩
  next =>
    refine (gives_annotations annotationsName pool false).bind fun annotations all => gives_pure ?_
    refine ⟨by simp, by simp, all, by simp⟩
  next =>
    have slots := gives_parameterAnnotations parameterAnnotationsName pool true
    refine slots.bind fun slots all => gives_pure ?_
    refine ⟨by simp, by simp, by simp, all⟩
  next =>
    have slots := gives_parameterAnnotations parameterAnnotationsName pool false
    refine slots.bind fun slots all => gives_pure ?_
    refine ⟨by simp, by simp, by simp, all⟩
  next =>
    refine gives_pure ?_
    constructor <;> simp

/-! ## Classes -/

/-- What an attribute of a class sets and adds. -/
structure ClassNote where
  signature : Option ClassSignature := none
  sourceFile : Option String := none
  access : Option AccessFlags := none
  enclosingClass : Option String := none
  annotations : List Annotation := []

namespace ClassNote

def apply (decl : ClassDecl) (note : ClassNote) : ClassDecl :=
  { decl with
    signature := note.signature.or decl.signature
    sourceFile := note.sourceFile.or decl.sourceFile
    access := note.access.getD decl.access
    enclosingClass := note.enclosingClass.or decl.enclosingClass
    annotations := decl.annotations ++ note.annotations }

/-- One note for two that are applied in turn. -/
def andThen (first second : ClassNote) : ClassNote where
  signature := second.signature.or first.signature
  sourceFile := second.sourceFile.or first.sourceFile
  access := second.access.or first.access
  enclosingClass := second.enclosingClass.or first.enclosingClass
  annotations := first.annotations ++ second.annotations

theorem apply_andThen (decl : ClassDecl) (first second : ClassNote) :
    (first.andThen second).apply decl = second.apply (first.apply decl) := by
  simp only [apply, andThen, Option.or_assoc, Option.getD_or, List.append_assoc]

theorem apply_foldl_andThen (notes : List ClassNote) (first : ClassNote) (decl : ClassDecl) :
    (notes.foldl andThen first).apply decl = notes.foldl apply (first.apply decl) := by
  induction notes generalizing first with
  | nil => rfl
  | cons note notes ih =>
    rw [List.foldl_cons, List.foldl_cons, ih, apply_andThen]

/-- The parts that entries of the table of inner classes can tell. -/
structure Bare (note : ClassNote) : Prop where
  signature : note.signature = none
  sourceFile : note.sourceFile = none
  annotations : note.annotations = []

theorem bare_foldl_andThen {notes : List ClassNote} (each : ∀ note ∈ notes, note.Bare)
    {first : ClassNote} (h : first.Bare) : (notes.foldl andThen first).Bare := by
  induction notes generalizing first with
  | nil => exact h
  | cons note notes ih =>
    have bare := each note List.mem_cons_self
    apply ih fun other inside => each other (List.mem_cons_of_mem note inside)
    constructor
    · rw [andThen, bare.signature, h.signature, Option.or_none]
    · rw [andThen, bare.sourceFile, h.sourceFile, Option.or_none]
    · rw [andThen, bare.annotations, h.annotations, List.append_nil]

theorem exists_of_enclosing {notes : List ClassNote} {first : ClassNote}
    (h : (notes.foldl andThen first).enclosingClass ≠ none) :
    first.enclosingClass ≠ none ∨ ∃ note ∈ notes, note.enclosingClass ≠ none := by
  induction notes generalizing first with
  | nil => exact .inl h
  | cons note notes ih =>
    rcases ih h with told | ⟨other, inside, told⟩
    · by_cases own : note.enclosingClass = none
      · rw [andThen, own, Option.none_or] at told
        exact .inl told
      · exact .inr ⟨note, List.mem_cons_self, own⟩
    · exact .inr ⟨other, List.mem_cons_of_mem note inside, told⟩

end ClassNote

section Inner

variable (pool : ConstantPool) (thisIndex : UInt16) (name : String)

/-- What an entry of the table of inner classes tells of the class with this index and name. -/
def innerNote (inner outer flags : UInt16) : Except ClassFileError ClassNote := do
  if ← isOwnEntry pool thisIndex name inner then
    let enclosingClass ← optionalClassName pool outer
    return { access := some ⟨flags⟩, enclosingClass }
  else
    return {}

def readInnerNote : Reader ClassNote := do
  let inner ← Reader.u2
  let outer ← Reader.u2
  let _innerName ← Reader.u2
  let flags ← Reader.u2
  Reader.lift (innerNote pool thisIndex name inner outer flags)

end Inner

/-- What an attribute of this name tells of the class with this index and name. -/
def classNote (pool : ConstantPool) (thisIndex : UInt16) (className name : String) :
    Reader ClassNote := do
  match name with
  | "Signature" =>
    let text ← operand pool.text
    let signature ← Reader.lift (ClassSignature.parse text)
    return { signature := some signature }
  | "SourceFile" =>
    let sourceFile ← operand pool.text
    return { sourceFile := some sourceFile }
  | "InnerClasses" =>
    let count ← Reader.u2
    let notes ← Reader.times count.toNat (readInnerNote pool thisIndex className)
    return notes.foldl ClassNote.andThen {}
  | "EnclosingMethod" =>
    let enclosing ← operand pool.className
    return { enclosingClass := some enclosing }
  | "RuntimeVisibleAnnotations" =>
    let annotations ← readAnnotations pool true
    return { annotations }
  | "RuntimeInvisibleAnnotations" =>
    let annotations ← readAnnotations pool false
    return { annotations }
  | _ => return {}

theorem readInnerClass_eq (pool : ConstantPool) (thisIndex : UInt16) (decl : ClassDecl) :
    readInnerClass pool thisIndex decl =
      readInnerNote pool thisIndex decl.name >>= fun note => pure (note.apply decl) := by
  have same : ∀ inner outer flags : UInt16, ∀ bytes : Bytes,
      (Reader.lift (isOwnEntry pool thisIndex decl.name inner) >>= fun own =>
        if own then
          Reader.lift (optionalClassName pool outer) >>= fun enclosing =>
            pure { decl with
              access := ⟨flags⟩, enclosingClass := enclosing.or decl.enclosingClass }
        else pure decl) bytes =
      (Reader.lift (innerNote pool thisIndex decl.name inner outer flags) >>= fun note =>
        pure (note.apply decl)) bytes := by
    intro inner outer flags bytes
    unfold innerNote
    cases isOwnEntry pool thisIndex decl.name inner with
    | error e => rfl
    | ok own =>
      cases own with
      | false =>
        show Except.ok (decl, bytes) = .ok (ClassNote.apply decl {}, bytes)
        simp [ClassNote.apply]
      | true =>
        cases optionalClassName pool outer with
        | error e => rfl
        | ok enclosing =>
          let note : ClassNote := { access := some ⟨flags⟩, enclosingClass := enclosing }
          show Except.ok (_, bytes) = .ok (note.apply decl, bytes)
          simp [ClassNote.apply, note]
  unfold readInnerClass readInnerNote
  simp only [bind_assoc]
  refine bind_congr fun inner => bind_congr fun outer => bind_congr fun _ => ?_
  exact bind_congr fun flags => funext (same inner outer flags)

theorem reviseClass_eq (pool : ConstantPool) (thisIndex : UInt16) (name : String)
    (decl : ClassDecl) :
    reviseClass pool thisIndex name decl =
      classNote pool thisIndex decl.name name >>= fun note => pure (note.apply decl) := by
  unfold reviseClass classNote
  split
  case h_3 =>
    have step : ∀ other : ClassDecl, other.name = decl.name →
        readInnerClass pool thisIndex other =
          readInnerNote pool thisIndex decl.name >>= fun note => pure (note.apply other) := by
      intro other same
      rw [readInnerClass_eq, same]
    have rows := fun count : UInt16 =>
      iterate_eq_times (fun other : ClassDecl => other.name = decl.name) step
        (fun other note same => same) count.toNat rfl
    have empty : ClassNote.apply decl {} = decl := by simp [ClassNote.apply]
    simp only [rows, bind_assoc, pure_bind, ClassNote.apply_foldl_andThen, empty]
  all_goals simp [ClassNote.apply]

section Inner

variable {pool : ConstantPool} {thisIndex : UInt16} {className : String}

theorem innerNote_eq_ok {inner outer flags : UInt16} {note : ClassNote}
    (h : innerNote pool thisIndex className inner outer flags = .ok note) :
    note.Bare ∧ (note.enclosingClass ≠ none →
      isOwnEntry pool thisIndex className inner = .ok true ∧ outer ≠ 0) := by
  obtain ⟨own, about, h⟩ := ok_of_bind h
  cases own with
  | false =>
    cases h
    exact ⟨⟨rfl, rfl, rfl⟩, fun told => absurd rfl told⟩
  | true =>
    obtain ⟨enclosing, named, h⟩ := ok_of_bind h
    cases h
    refine ⟨⟨rfl, rfl, rfl⟩, fun told => ⟨about, ?_⟩⟩
    rintro rfl
    cases named
    exact told rfl

/-- An entry of the table of inner classes, as four words. -/
structure InnerEntry where
  inner : UInt16
  outer : UInt16
  innerName : UInt16
  flags : UInt16

def InnerEntry.bytes (entry : InnerEntry) : Bytes :=
  word2 entry.inner.toNat ++ (word2 entry.outer.toNat ++
    (word2 entry.innerName.toNat ++ word2 entry.flags.toNat))

theorem yields_innerEntry (entry : InnerEntry) :
    Yields (readInnerNote pool thisIndex className) entry.bytes
      (innerNote pool thisIndex className entry.inner entry.outer entry.flags) := by
  refine Yields.behind (reads_index entry.inner) ?_
  refine Yields.behind (reads_index entry.outer) ?_
  refine Yields.behind (reads_index entry.innerName) ?_
  rw [← List.append_nil (word2 entry.flags.toNat)]
  exact Yields.behind (reads_index entry.flags) (yields_lift _)

theorem shaped_innerEntry :
    Shaped (readInnerNote pool thisIndex className) (fun _ => True) InnerEntry.bytes := by
  intro all rest note read
  obtain ⟨inner, left, readInner, read⟩ := bind_eq_ok read
  obtain ⟨outer, left', readOuter, read⟩ := bind_eq_ok read
  obtain ⟨innerName, left'', readName, read⟩ := bind_eq_ok read
  obtain ⟨flags, left''', readFlags, read⟩ := bind_eq_ok read
  obtain ⟨_, rfl⟩ := lift_eq_ok read
  obtain rfl := u2_eq_ok readFlags
  obtain rfl := u2_eq_ok readName
  obtain rfl := u2_eq_ok readOuter
  obtain rfl := u2_eq_ok readInner
  refine ⟨⟨inner, outer, innerName, flags⟩, trivial, ?_⟩
  simp only [InnerEntry.bytes, List.append_assoc]

/-- The body is a table of inner classes with an entry about the class with this index and name that
names a class around it. -/
def DeclaresOuter (pool : ConstantPool) (thisIndex : UInt16) (className : String) (body : Bytes) :
    Prop :=
  ∃ entries rest, entries.length < 0x10000 ∧
    body = rowBytes InnerEntry.bytes entries ++ rest ∧
    ∃ entry ∈ entries, isOwnEntry pool thisIndex className entry.inner = .ok true ∧ entry.outer ≠ 0

theorem exists_entries {body rest : Bytes} {note : ClassNote}
    (h : classNote pool thisIndex className "InnerClasses" body = .ok (note, rest)) :
    ∃ (entries : List InnerEntry) (notes : List ClassNote), entries.length < 0x10000 ∧
      body = rowBytes InnerEntry.bytes entries ++ rest ∧
      entries.mapM (fun entry => innerNote pool thisIndex className entry.inner entry.outer
        entry.flags) = .ok notes ∧
      note = notes.foldl ClassNote.andThen {} := by
  have read : ((Reader.u2 >>= fun count =>
        times count.toNat (readInnerNote pool thisIndex className)) >>= fun notes =>
      pure (notes.foldl ClassNote.andThen {})) body = .ok (note, rest) := by
    rw [bind_assoc]
    exact h
  obtain ⟨notes, left, readNotes, last⟩ := bind_eq_ok read
  cases last
  obtain ⟨entries, ⟨fits, _⟩, rfl⟩ := shaped_row shaped_innerEntry readNotes
  have yields : Yields (Reader.u2 >>= fun count =>
      times count.toNat (readInnerNote pool thisIndex className))
      (rowBytes InnerEntry.bytes entries) _ :=
    yields_row fits fun entry _ => yields_innerEntry entry
  have told := yields rest
  rw [readNotes] at told
  refine ⟨entries, notes, fits, rfl, ?_, rfl⟩
  cases each : entries.mapM fun entry =>
      innerNote pool thisIndex className entry.inner entry.outer entry.flags with
  | error e =>
    rw [each] at told
    cases told
  | ok others =>
    rw [each] at told
    cases told
    rfl

theorem declaresOuter_of_enclosing {body rest : Bytes} {note : ClassNote}
    (h : classNote pool thisIndex className "InnerClasses" body = .ok (note, rest))
    (told : note.enclosingClass ≠ none) : DeclaresOuter pool thisIndex className body := by
  obtain ⟨entries, notes, fits, rfl, row, rfl⟩ := exists_entries h
  rcases ClassNote.exists_of_enclosing told with bare | ⟨note, inside, told⟩
  · exact absurd rfl bare
  · obtain ⟨entry, there, read⟩ :=
      exists_of_mem_forall₂ (mapM_eq_ok_iff.mp row).flip inside
    exact ⟨entries, rest, fits, rfl, entry, there, (innerNote_eq_ok read).2 told⟩

end Inner

/-- The parts of a note that an attribute of this name can tell. -/
structure ClassNote.From (name : String) (note : ClassNote) : Prop where
  signature : note.signature ≠ none → name = "Signature"
  sourceFile : note.sourceFile ≠ none → name = "SourceFile"
  access : note.access ≠ none → name = "InnerClasses"
  enclosingClass : note.enclosingClass ≠ none → name = "EnclosingMethod" ∨ name = "InnerClasses"
  annotations : ∀ marked ∈ note.annotations, name = annotationsName marked.visible

theorem classNote_from (pool : ConstantPool) (thisIndex : UInt16) (className name : String) :
    Gives (classNote pool thisIndex className name) (ClassNote.From name) := by
  unfold classNote
  split
  case h_3 =>
    have bare : Gives (readInnerNote pool thisIndex className) ClassNote.Bare := by
      refine gives_bind fun inner => gives_bind fun outer => gives_bind fun _ => ?_
      refine gives_bind fun flags => ?_
      intro bytes rest note read
      exact (innerNote_eq_ok (lift_eq_ok read).1).1
    refine gives_bind fun count => (bare.times _).bind fun notes each => gives_pure ?_
    have empty : ClassNote.Bare {} := ⟨rfl, rfl, rfl⟩
    have all := ClassNote.bare_foldl_andThen each empty
    refine ⟨fun told => absurd all.signature told, fun told => absurd all.sourceFile told,
      fun _ => rfl, fun _ => .inr rfl, ?_⟩
    rw [all.annotations]
    exact fun marked inside => absurd inside List.not_mem_nil
  next =>
    refine gives_bind fun text => gives_bind fun signature => gives_pure ?_
    constructor <;> simp
  next =>
    refine gives_bind fun sourceFile => gives_pure ?_
    constructor <;> simp
  next =>
    refine gives_bind fun enclosing => gives_pure ?_
    constructor <;> simp
  next =>
    refine (gives_annotations annotationsName pool true).bind fun annotations all => gives_pure ?_
    refine ⟨by simp, by simp, by simp, by simp, all⟩
  next =>
    refine (gives_annotations annotationsName pool false).bind fun annotations all => gives_pure ?_
    refine ⟨by simp, by simp, by simp, by simp, all⟩
  next =>
    refine gives_pure ?_
    constructor <;> simp

end ClassFile

end ClassAtlas
