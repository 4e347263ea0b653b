import ClassAtlas.Proofs.ClassFile.Incremental
import ClassAtlas.Proofs.ClassFile.RoundTrip

/-!
# Class files that are cut short or go on

* `incremental_elementValue`: the depth of nesting that is allowed for grows with the bytes at hand,
  which makes no difference, since no nesting can be deeper than the bytes are many;
* `incremental_class`: a class file is read incrementally, put together from its parts;
* `decode_prefixes`: a class file that is cut short ends too early wherever it is cut, and one that
  is refused is refused for the same cause when it goes on.
-/

namespace ClassAtlas

namespace ClassFile

open Reader

/-! ## Constants -/

theorem incremental_operand {α : Type} (select : UInt16 → Except ClassFileError α) :
    Incremental (operand select) :=
  Incremental.u2.bind fun index => Incremental.lift (select index)

theorem incremental_text : Incremental Constant.readText := by
  refine Incremental.u2.bind fun length => (Incremental.take _).bind fun bytes => ?_
  exact (Incremental.lift (Constant.textOf bytes)).map Constant.text

theorem incremental_constant : Incremental Constant.read := by
  refine Incremental.u1.bind fun tag => ?_
  split
  · exact incremental_text
  · exact Incremental.u4.map _
  · exact Incremental.u4.map _
  · exact Incremental.u8.map _
  · exact Incremental.u8.map _
  · exact Incremental.u2.map _
  · exact Incremental.u2.map _
  · split
    next size _ => exact (Incremental.skip size).map _
    next => exact Incremental.fail _

/-- The reading of the constants recurs on the slots that are left, one or two fewer each time. -/
theorem incremental_constants (slots : Nat) : Incremental (Constant.readList slots) := by
  induction slots using Constant.readList.induct with
  | case1 => exact Incremental.pure []
  | case2 => exact incremental_constant.map fun constant => [constant]
  | case3 slots narrow wide =>
    refine incremental_constant.bind fun first => ?_
    split
    · exact narrow.map (first :: ·)
    · exact wide.map (first :: ·)

theorem incremental_pool : Incremental ConstantPool.read :=
  Incremental.u2.bind fun count => (incremental_constants (count.toNat - 1)).map _

/-! ## Annotations -/

section Annotations

variable (pool : ConstantPool) (visible : Bool)

theorem incremental_element {reader : Reader ElementValue} (h : Incremental reader) :
    Incremental (readElement pool reader) :=
  (incremental_operand pool.text).bind fun name => h.map (AnnotationElement.mk name)

theorem incremental_annotationItem {reader : Reader ElementValue} (h : Incremental reader) :
    Incremental (annotationItem pool visible reader) := by
  refine (incremental_operand pool.text).bind fun descriptor => ?_
  refine (Incremental.lift (objectName descriptor)).bind fun typeName => ?_
  refine Incremental.u2.bind fun count => ?_
  exact ((incremental_element pool h).times _).map _

theorem incremental_readElementValue {reader : Reader ElementValue} (h : Incremental reader) :
    Incremental (readElementValue pool visible reader) := by
  refine Incremental.u1.bind fun tag => ?_
  split
  case h_10 =>
    refine (incremental_operand pool.text).bind fun descriptor => ?_
    refine (Incremental.lift (objectName descriptor)).bind fun typeName => ?_
    exact (incremental_operand pool.text).map _
  case h_11 =>
    refine (incremental_operand pool.text).bind fun descriptor => ?_
    exact (Incremental.lift (literalType descriptor)).map _
  case h_12 => exact (incremental_annotationItem pool visible h).map _
  case h_13 => exact Incremental.u2.bind fun count => (h.times _).map _
  case h_14 => exact Incremental.fail _
  all_goals exact (incremental_operand _).map _

theorem incremental_elementValueWithin (depth : Nat) :
    Incremental (elementValueWithin pool visible depth) := by
  induction depth with
  | zero => exact Incremental.fail _
  | succ depth ih => exact incremental_readElementValue pool visible ih

variable {pool visible} {limit : Nat} {reader other : Reader ElementValue}

theorem agrees_annotationItem (h : Reader.Agrees limit reader other)
    (shrinks : Incremental reader) :
    Reader.Agrees limit (annotationItem pool visible reader)
      (annotationItem pool visible other) := by
  have element : Reader.Agrees limit (readElement pool reader) (readElement pool other) :=
    (Reader.Agrees.refl _).bind (incremental_operand pool.text) fun name =>
      h.bind shrinks fun value => Reader.Agrees.refl _
  refine (Reader.Agrees.refl _).bind (incremental_operand pool.text) fun descriptor => ?_
  refine (Reader.Agrees.refl _).bind (Incremental.lift _) fun typeName => ?_
  refine (Reader.Agrees.refl _).bind Incremental.u2 fun count => ?_
  exact (element.times (incremental_element pool shrinks) _).bind
    ((incremental_element pool shrinks).times _) fun elements => Reader.Agrees.refl _

theorem agrees_readElementValue (h : Reader.Agrees limit reader other)
    (shrinks : Incremental reader) :
    Reader.Agrees (limit + 1) (readElementValue pool visible reader)
      (readElementValue pool visible other) := by
  refine Reader.Agrees.behind_byte fun tag => ?_
  split
  case h_12 =>
    exact (agrees_annotationItem h shrinks).bind (incremental_annotationItem pool visible shrinks)
      fun _ => Reader.Agrees.refl _
  case h_13 =>
    refine (Reader.Agrees.refl Reader.u2).bind Incremental.u2 fun count => ?_
    exact (h.times shrinks _).bind (shrinks.times _) fun _ => Reader.Agrees.refl _
  all_goals exact Reader.Agrees.refl _

/-- Every level of nesting takes a byte, so that a depth of as many levels as there are bytes is as
good as any. -/
theorem agrees_elementValueWithin {depth depth' : Nat} (h : limit ≤ depth) (h' : limit ≤ depth') :
    Reader.Agrees limit (elementValueWithin pool visible depth)
      (elementValueWithin pool visible depth') := by
  induction limit generalizing depth depth' with
  | zero =>
    intro bytes short
    obtain rfl := List.length_eq_zero_iff.mp (Nat.le_zero.mp short)
    cases depth <;> cases depth' <;> rfl
  | succ limit ih =>
    obtain ⟨depth, rfl⟩ := Nat.exists_eq_add_of_lt (Nat.lt_of_succ_le h)
    obtain ⟨depth', rfl⟩ := Nat.exists_eq_add_of_lt (Nat.lt_of_succ_le h')
    have within := ih (Nat.le_add_right limit depth) (Nat.le_add_right limit depth')
    exact agrees_readElementValue within (incremental_elementValueWithin pool visible _)

end Annotations

section Attributes

variable (pool : ConstantPool) (visible : Bool)

theorem incremental_elementValue : Incremental (elementValue pool visible) :=
  Incremental.of_allowance (incremental_elementValueWithin pool visible) agrees_elementValueWithin

theorem incremental_annotations : Incremental (readAnnotations pool visible) :=
  Incremental.u2.bind fun _ =>
    (incremental_annotationItem pool visible (incremental_elementValue pool visible)).times _

theorem incremental_parameterAnnotations : Incremental (readParameterAnnotations pool visible) :=
  Incremental.u1.bind fun _ => (incremental_annotations pool visible).times _

/-! ## Attributes and members -/

theorem incremental_attribute : Incremental (readAttribute pool) := by
  refine (incremental_operand pool.text).bind fun name => ?_
  exact Incremental.u4.bind fun length => (Incremental.take _).map fun body => (name, body)

/-- The content of an attribute is read from its body alone, so nothing is asked of its reader. -/
theorem incremental_attributes {δ : Type} (revise : String → δ → Reader δ) (decl : δ) :
    Incremental (readAttributes pool revise decl) := by
  refine Incremental.u2.bind fun count => Incremental.iterate (fun decl => ?_) _ _
  exact (incremental_attribute pool).bind fun next => Incremental.inside _ _

/-- An attribute that is a text, read as a value. -/
theorem incremental_parsed {α δ : Type} (parse : String → Except ClassFileError α) (f : α → δ) :
    Incremental (operand pool.text >>= fun text => lift (parse text) >>= fun value =>
      pure (f value)) :=
  (incremental_operand pool.text).bind fun text => (Incremental.lift (parse text)).map f

theorem incremental_reviseField (name : String) (field : FieldDecl) :
    Incremental (reviseField pool name field) := by
  unfold reviseField
  split
  · exact incremental_parsed pool _ _
  · exact (incremental_operand _).map _
  · exact (incremental_annotations pool true).map _
  · exact (incremental_annotations pool false).map _
  · exact Incremental.pure field

theorem incremental_reviseMethod (name : String) (method : MethodDecl) :
    Incremental (reviseMethod pool name method) := by
  unfold reviseMethod
  split
  · exact incremental_parsed pool _ _
  · exact Incremental.u2.bind fun count => ((incremental_operand pool.className).times _).map _
  · exact (incremental_annotations pool true).map _
  · exact (incremental_annotations pool false).map _
  · exact (incremental_parameterAnnotations pool true).map _
  · exact (incremental_parameterAnnotations pool false).map _
  · exact Incremental.pure method

theorem incremental_innerClass (thisIndex : UInt16) (decl : ClassDecl) :
    Incremental (readInnerClass pool thisIndex decl) := by
  refine Incremental.u2.bind fun inner => Incremental.u2.bind fun outer => ?_
  refine Incremental.u2.bind fun innerName => Incremental.u2.bind fun flags => ?_
  refine (Incremental.lift _).bind fun own => ?_
  split
  · exact (Incremental.lift _).map _
  · exact Incremental.pure decl

theorem incremental_reviseClass (thisIndex : UInt16) (name : String) (decl : ClassDecl) :
    Incremental (reviseClass pool thisIndex name decl) := by
  unfold reviseClass
  split
  · exact incremental_parsed pool _ _
  · exact (incremental_operand pool.text).map _
  · exact Incremental.u2.bind fun count =>
      Incremental.iterate (incremental_innerClass pool thisIndex) _ _
  · exact (incremental_operand pool.className).map _
  · exact (incremental_annotations pool true).map _
  · exact (incremental_annotations pool false).map _
  · exact Incremental.pure decl

theorem incremental_field : Incremental (readField pool) := by
  refine Incremental.u2.bind fun bits => (incremental_operand pool.text).bind fun name => ?_
  refine (incremental_operand pool.text).bind fun descriptor => ?_
  exact (Incremental.lift _).bind fun type => incremental_attributes pool _ _

theorem incremental_method : Incremental (readMethod pool) := by
  refine Incremental.u2.bind fun bits => (incremental_operand pool.text).bind fun name => ?_
  refine (incremental_operand pool.text).bind fun descriptor => ?_
  exact (Incremental.lift _).bind fun type => incremental_attributes pool _ _

end Attributes

/-! ## Class files -/

theorem incremental_version : Incremental readVersion := by
  refine Incremental.u4.bind fun word => ?_
  have version : Incremental (Reader.u2 >>= fun minor => Reader.u2 >>= fun major =>
      if supports major then pure (major, minor)
      else Reader.fail (.unsupportedVersion major)) := by
    refine Incremental.u2.bind fun minor => Incremental.u2.bind fun major => ?_
    split
    · exact Incremental.pure _
    · exact Incremental.fail _
  split
  · exact (Incremental.fail _).bind fun _ => version
  · exact version

/-- What stands in front of the fields of a class file. -/
structure ClassHead where
  majorVersion : UInt16
  minorVersion : UInt16
  pool : ConstantPool
  access : UInt16
  thisIndex : UInt16
  name : String
  superclass : Option String
  interfaces : List String

/-- The class, before any of its own attributes is read. -/
def ClassHead.decl (head : ClassHead) (fields : List FieldDecl) (methods : List MethodDecl) :
    ClassDecl :=
  { name := head.name, superclass := head.superclass, interfaces := head.interfaces,
    access := ⟨head.access⟩, majorVersion := head.majorVersion, minorVersion := head.minorVersion,
    fields, methods, annotations := [], signature := none, sourceFile := none,
    enclosingClass := none }

def readHead : Reader ClassHead := do
  let (majorVersion, minorVersion) ← readVersion
  let pool ← ConstantPool.read
  let access ← Reader.u2
  let thisIndex ← Reader.u2
  let name ← Reader.lift (pool.className thisIndex)
  let superclass ← operand (optionalClassName pool)
  let interfaceCount ← Reader.u2
  let interfaces ← Reader.times interfaceCount.toNat (operand pool.className)
  return { majorVersion, minorVersion, pool, access, thisIndex, name, superclass, interfaces }

/-- A class file is its head, its fields, its methods and its own attributes. -/
theorem readClass_eq :
    readClass = readHead >>= fun head =>
      (Reader.u2 >>= fun count => times count.toNat (readField head.pool)) >>= fun fields =>
      (Reader.u2 >>= fun count => times count.toNat (readMethod head.pool)) >>= fun methods =>
      readAttributes head.pool (reviseClass head.pool head.thisIndex)
        (head.decl fields methods) := by
  simp only [readClass, readHead, bind_assoc, pure_bind]
  rfl

theorem incremental_head : Incremental readHead := by
  refine incremental_version.bind fun version => incremental_pool.bind fun pool => ?_
  refine Incremental.u2.bind fun access => Incremental.u2.bind fun thisIndex => ?_
  refine (Incremental.lift _).bind fun name => (incremental_operand _).bind fun superclass => ?_
  refine Incremental.u2.bind fun interfaceCount => ?_
  exact ((incremental_operand _).times _).map _

theorem incremental_class : Incremental readClass := by
  rw [readClass_eq]
  refine incremental_head.bind fun head => ?_
  refine (Incremental.u2.bind fun count => (incremental_field head.pool).times _).bind
    fun fields => ?_
  refine (Incremental.u2.bind fun count => (incremental_method head.pool).times _).bind
    fun methods => ?_
  exact incremental_attributes head.pool _ _

end ClassFile

namespace ClassDecl

open ClassFile

theorem decode_eq_ok {bytes : Bytes} {decl : ClassDecl} (h : decode bytes = .ok decl) :
    ∃ rest, ClassFile.readClass bytes = .ok (decl, rest) := by
  obtain ⟨⟨decl, rest⟩, result, rfl⟩ := ok_of_map h
  exact ⟨rest, result⟩

theorem decode_of_ok {bytes rest : Bytes} {decl : ClassDecl}
    (h : ClassFile.readClass bytes = .ok (decl, rest)) : decode bytes = .ok decl := by
  show (ClassFile.readClass bytes).map Prod.fst = _
  rw [h]
  rfl

theorem decode_eq_error_iff {bytes : Bytes} {e : ClassFileError} :
    decode bytes = .error e ↔ ClassFile.readClass bytes = .error e := by
  change (ClassFile.readClass bytes).map Prod.fst = _ ↔ _
  cases ClassFile.readClass bytes <;> simp [Except.map]

/-- A class file of `n` bytes is the same class file whatever stands behind it, and ends too early
wherever it is cut off. Bytes that are refused for another cause are so however they go on. -/
theorem decode_prefixes (bytes : Bytes) :
    (∀ decl, decode bytes = .ok decl → ∃ n ≤ bytes.length,
      ClassFile.readClass.run bytes = .ok (decl, bytes.drop n) ∧
      (∀ m < n, decode (bytes.take m) = .error .unexpectedEnd) ∧
      ∀ more, decode (bytes.take n ++ more) = .ok decl) ∧
    (∀ error, decode bytes = .error error → error ≠ .unexpectedEnd →
      ∀ more, decode (bytes ++ more) = .error error) := by
  constructor
  · intro decl h
    obtain ⟨rest, read⟩ := decode_eq_ok h
    obtain ⟨front, rfl, reads⟩ := incremental_class.takes read
    refine ⟨front.length, ?_, ?_, fun m hm => ?_, fun more => ?_⟩
    · rw [List.length_append]
      omega
    · rw [List.drop_left]
      exact read
    · have parts : front = front.take m ++ front.drop m := (List.take_append_drop m front).symm
      have short : front.drop m ≠ [] := by
        rw [ne_eq, List.drop_eq_nil_iff]
        omega
      rw [List.take_append_of_le_length (Nat.le_of_lt hm), decode_eq_error_iff]
      rw [parts] at reads
      exact incremental_class.cut reads short
    · rw [List.take_left]
      exact decode_of_ok (reads more)
  · intro error h other more
    rw [decode_eq_error_iff] at h ⊢
    exact incremental_class.refuses h other more

/-- A class file with nothing behind it is no class file without its last byte, nor any shorter. -/
theorem decode_prefixes_counterForm :
    ∀ m < counterForm.bytes.length,
      decode (counterForm.bytes.take m) = .error .unexpectedEnd := by
  have read : ClassFile.readClass counterForm.bytes = .ok (counterForm.decl, []) := by
    have all := reads_class counterForm_fits []
    rwa [List.append_nil] at all
  obtain ⟨n, _, consumed, cut, _⟩ :=
    (decode_prefixes counterForm.bytes).1 counterForm.decl (decode_of_ok read)
  change ClassFile.readClass counterForm.bytes = _ at consumed
  rw [read] at consumed
  have all : counterForm.bytes.drop n = [] := (Prod.mk.inj (Except.ok.inj consumed)).2.symm
  rw [List.drop_eq_nil_iff] at all
  intro m hm
  exact cut m (Nat.lt_of_lt_of_le hm all)

end ClassDecl

end ClassAtlas
