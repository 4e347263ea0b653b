import ClassAtlas.Proofs.ClassFile.Bounds
import ClassAtlas.Proofs.Descriptor.Rendered

/-!
# Annotation trees read back

`AnnotationWritten` is the grammar of annotations: letters, counts, and indices of constants. Which
index an operand is written with is free, as long as the pool holds the operand there.

* `annotationsWritten_of_has`: whatever pool holds the operands, the trees can be written over it;
* `reads_elementValue_written`: what is read takes exactly the bytes that were written, so that the
  value behind another one is read from its own bytes;
* `reads_annotationTrees`: trees of any depth and width are read back.
-/

namespace ClassAtlas

/-! ## What can be written -/

mutual

/-- A value that can be written: characters have 16 bits, types have descriptors, a count fits two
bytes, and annotations are as visible as the attribute they are in. -/
def ElementValue.Encodable (visible : Bool) : ElementValue → Prop
  | .char c => c.toNat < 0x10000
  | .enum typeName _ => JavaType.Nameable typeName
  | .classLiteral type => type = .void ∨ type.IsField
  | .nested tree => tree.Encodable visible
  | .array values => values.length < 0x10000 ∧ ValuesEncodable visible values
  | _ => True

def ValuesEncodable (visible : Bool) : List ElementValue → Prop
  | [] => True
  | value :: others => value.Encodable visible ∧ ValuesEncodable visible others

def Annotation.Encodable (visible : Bool) : Annotation → Prop
  | .mk typeName seen elements => JavaType.Nameable typeName ∧ seen = visible ∧
      elements.length < 0x10000 ∧ ElementsEncodable visible elements

def ElementsEncodable (visible : Bool) : List AnnotationElement → Prop
  | [] => True
  | .mk _ value :: others => value.Encodable visible ∧ ElementsEncodable visible others

end

/-! ## Pools that hold constants -/

namespace ConstantPool

/-- The constant is in the slot of that index. -/
def Holds (pool : ConstantPool) (index : UInt16) (constant : Constant) : Prop :=
  pool.slots[index.toNat]? = some (some constant)

/-- The constant is in some slot. -/
def Has (pool : ConstantPool) (constant : Constant) : Prop :=
  ∃ index, pool.Holds index constant

variable {pool : ConstantPool} {index : UInt16}

theorem find_of_holds {α : Type} {select : Constant → Option α} {constant : Constant} {a : α}
    (h : pool.Holds index constant) (selected : select constant = some a) :
    pool.find select index = .ok a := by
  rw [find, h, Option.join_some, Option.bind_some, selected]

theorem text_of_holds {text : String} (h : pool.Holds index (.text text)) :
    pool.text index = .ok text := find_of_holds h rfl

theorem integer_of_holds {value : Int32} (h : pool.Holds index (.integer value)) :
    pool.integer index = .ok value := find_of_holds h rfl

theorem long_of_holds {value : Int64} (h : pool.Holds index (.long value)) :
    pool.long index = .ok value := find_of_holds h rfl

theorem float_of_holds {bits : UInt32} (h : pool.Holds index (.float bits)) :
    pool.float index = .ok bits := find_of_holds h rfl

theorem double_of_holds {bits : UInt64} (h : pool.Holds index (.double bits)) :
    pool.double index = .ok bits := find_of_holds h rfl

/-- A character of 16 bits is the number that is written for it. -/
theorem charOf_ofNat {c : Char} (small : c.toNat < 0x10000) :
    charOf (Int32.ofNat c.toNat) = c := by
  have code : (Int32.ofNat c.toNat).toUInt32.toNat = c.toNat := by
    show (UInt32.ofNat c.toNat).toNat = c.toNat
    rw [UInt32.toNat_ofNat']
    omega
  have valid : c.toNat.isValidChar := c.valid
  unfold charOf
  simp only [code, if_pos valid, Char.ofNat_toNat]

end ConstantPool

namespace ClassFile

open Reader

/-! ## Written annotations -/

/-- The constant that names a type. -/
def descriptorOf (type : JavaType) : Constant := .text (String.ofList type.render)

/-- The letter of the kind in front of the content. -/
def tagged (letter : Char) (content : Bytes) : Bytes := word1 letter.toNat ++ content

section Grammar

variable (pool : ConstantPool)

mutual

/-- The bytes stand for the value: the letter of its kind, then indices of its operands or what is
in it. Of an integer that is written for a byte or short the low bits count, and any integer but
zero is true. -/
inductive ElementWritten : ElementValue → Bytes → Prop
  | byte {index : UInt16} {n : Int32} (held : pool.Holds index (.integer n)) :
    ElementWritten (.byte n.toInt8) (tagged 'B' (word2 index.toNat))
  | char {index : UInt16} {c : Char} (held : pool.Holds index (.integer (Int32.ofNat c.toNat))) :
    ElementWritten (.char c) (tagged 'C' (word2 index.toNat))
  | short {index : UInt16} {n : Int32} (held : pool.Holds index (.integer n)) :
    ElementWritten (.short n.toInt16) (tagged 'S' (word2 index.toNat))
  | boolean {index : UInt16} {n : Int32} (held : pool.Holds index (.integer n)) :
    ElementWritten (.boolean (n ≠ 0)) (tagged 'Z' (word2 index.toNat))
  | int {index : UInt16} {n : Int32} (held : pool.Holds index (.integer n)) :
    ElementWritten (.int n) (tagged 'I' (word2 index.toNat))
  | long {index : UInt16} {n : Int64} (held : pool.Holds index (.long n)) :
    ElementWritten (.long n) (tagged 'J' (word2 index.toNat))
  | float {index : UInt16} {bits : UInt32} (held : pool.Holds index (.float bits)) :
    ElementWritten (.float bits) (tagged 'F' (word2 index.toNat))
  | double {index : UInt16} {bits : UInt64} (held : pool.Holds index (.double bits)) :
    ElementWritten (.double bits) (tagged 'D' (word2 index.toNat))
  | string {index : UInt16} {s : String} (held : pool.Holds index (.text s)) :
    ElementWritten (.string s) (tagged 's' (word2 index.toNat))
  | enum {type index : UInt16} {typeName constant : String}
    (named : pool.Holds type (descriptorOf (.object typeName)))
    (held : pool.Holds index (.text constant)) :
    ElementWritten (.enum typeName constant)
      (tagged 'e' (word2 type.toNat ++ word2 index.toNat))
  | classLiteral {index : UInt16} {type : JavaType} (held : pool.Holds index (descriptorOf type)) :
    ElementWritten (.classLiteral type) (tagged 'c' (word2 index.toNat))
  | nested {tree : Annotation} {content : Bytes} (inner : AnnotationWritten tree content) :
    ElementWritten (.nested tree) (tagged '@' content)
  | array {values : List ElementValue} {content : Bytes} (inner : ValuesWritten values content) :
    ElementWritten (.array values) (tagged '[' (word2 values.length ++ content))

inductive ValuesWritten : List ElementValue → Bytes → Prop
  | nil : ValuesWritten [] []
  | cons {value : ElementValue} {others : List ElementValue} {front back : Bytes}
    (first : ElementWritten value front) (rest : ValuesWritten others back) :
    ValuesWritten (value :: others) (front ++ back)

/-- The bytes stand for the annotation. How visible it is stands elsewhere. -/
inductive AnnotationWritten : Annotation → Bytes → Prop
  | mk {index : UInt16} {typeName : String} {visible : Bool} {elements : List AnnotationElement}
    {content : Bytes} (named : pool.Holds index (descriptorOf (.object typeName)))
    (inner : ElementsWritten elements content) :
    AnnotationWritten (.mk typeName visible elements)
      (word2 index.toNat ++ (word2 elements.length ++ content))

inductive ElementsWritten : List AnnotationElement → Bytes → Prop
  | nil : ElementsWritten [] []
  | cons {index : UInt16} {name : String} {value : ElementValue}
    {others : List AnnotationElement} {front back : Bytes} (named : pool.Holds index (.text name))
    (first : ElementWritten value front) (rest : ElementsWritten others back) :
    ElementsWritten (.mk name value :: others) ((word2 index.toNat ++ front) ++ back)

end

/-- The bytes are the content of an attribute: the number of annotations, then each in turn. -/
def AnnotationsWritten (trees : List Annotation) (bytes : Bytes) : Prop :=
  ∃ parts : List Bytes, List.Forall₂ (AnnotationWritten pool) trees parts ∧
    bytes = word2 trees.length ++ parts.flatten

end Grammar

/-! ## Operands -/

mutual

/-- The constants that the value is written with. -/
def elementOperands : ElementValue → List Constant
  | .byte v => [.integer v.toInt32]
  | .char c => [.integer (Int32.ofNat c.toNat)]
  | .short v => [.integer v.toInt32]
  | .boolean b => [.integer (if b then 1 else 0)]
  | .int v => [.integer v]
  | .long v => [.long v]
  | .float bits => [.float bits]
  | .double bits => [.double bits]
  | .string s => [.text s]
  | .enum typeName constant => [descriptorOf (.object typeName), .text constant]
  | .classLiteral type => [descriptorOf type]
  | .nested tree => annotationOperands tree
  | .array values => valuesOperands values

def valuesOperands : List ElementValue → List Constant
  | [] => []
  | value :: others => elementOperands value ++ valuesOperands others

/-- The constants that the annotation is written with. -/
def annotationOperands : Annotation → List Constant
  | .mk typeName _ elements => descriptorOf (.object typeName) :: elementsOperands elements

def elementsOperands : List AnnotationElement → List Constant
  | [] => []
  | .mk name value :: others => .text name :: (elementOperands value ++ elementsOperands others)

end

section Writing

variable {pool : ConstantPool}

mutual

theorem elementWritten_of_has (value : ElementValue)
    (held : ∀ constant ∈ elementOperands value, pool.Has constant) :
    ∃ bytes, ElementWritten pool value bytes := by
  cases value with
  | byte v =>
    obtain ⟨index, number⟩ := held _ List.mem_cons_self
    have written := ElementWritten.byte number
    rw [Int8.toInt8_toInt32] at written
    exact ⟨_, written⟩
  | char c =>
    obtain ⟨index, number⟩ := held _ List.mem_cons_self
    exact ⟨_, .char number⟩
  | short v =>
    obtain ⟨index, number⟩ := held _ List.mem_cons_self
    have written := ElementWritten.short number
    rw [Int16.toInt16_toInt32] at written
    exact ⟨_, written⟩
  | boolean b =>
    obtain ⟨index, number⟩ := held _ List.mem_cons_self
    have written := ElementWritten.boolean number
    have same : (decide ((if b then (1 : Int32) else 0) ≠ 0) : Bool) = b := by
      cases b <;> rfl
    rw [same] at written
    exact ⟨_, written⟩
  | int v =>
    obtain ⟨index, number⟩ := held _ List.mem_cons_self
    exact ⟨_, .int number⟩
  | long v =>
    obtain ⟨index, number⟩ := held _ List.mem_cons_self
    exact ⟨_, .long number⟩
  | float bits =>
    obtain ⟨index, number⟩ := held _ List.mem_cons_self
    exact ⟨_, .float number⟩
  | double bits =>
    obtain ⟨index, number⟩ := held _ List.mem_cons_self
    exact ⟨_, .double number⟩
  | string s =>
    obtain ⟨index, text⟩ := held _ List.mem_cons_self
    exact ⟨_, .string text⟩
  | enum typeName constant =>
    obtain ⟨⟨type, named⟩, others⟩ := List.forall_mem_cons.mp held
    obtain ⟨index, text⟩ := others _ List.mem_cons_self
    exact ⟨_, .enum named text⟩
  | classLiteral type =>
    obtain ⟨index, text⟩ := held _ List.mem_cons_self
    exact ⟨_, .classLiteral text⟩
  | nested tree =>
    obtain ⟨content, inner⟩ := annotationWritten_of_has tree held
    exact ⟨_, .nested inner⟩
  | array values =>
    obtain ⟨content, inner⟩ := valuesWritten_of_has values held
    exact ⟨_, .array inner⟩

theorem valuesWritten_of_has (values : List ElementValue)
    (held : ∀ constant ∈ valuesOperands values, pool.Has constant) :
    ∃ bytes, ValuesWritten pool values bytes := by
  cases values with
  | nil => exact ⟨[], .nil⟩
  | cons value others =>
    obtain ⟨own, behind⟩ := List.forall_mem_append.mp held
    obtain ⟨front, first⟩ := elementWritten_of_has value own
    obtain ⟨back, rest⟩ := valuesWritten_of_has others behind
    exact ⟨_, .cons first rest⟩

theorem annotationWritten_of_has (tree : Annotation)
    (held : ∀ constant ∈ annotationOperands tree, pool.Has constant) :
    ∃ bytes, AnnotationWritten pool tree bytes := by
  cases tree with
  | mk typeName visible elements =>
    obtain ⟨⟨index, named⟩, operands⟩ := List.forall_mem_cons.mp held
    obtain ⟨content, inner⟩ := elementsWritten_of_has elements operands
    exact ⟨_, .mk named inner⟩

theorem elementsWritten_of_has (elements : List AnnotationElement)
    (held : ∀ constant ∈ elementsOperands elements, pool.Has constant) :
    ∃ bytes, ElementsWritten pool elements bytes := by
  cases elements with
  | nil => exact ⟨[], .nil⟩
  | cons element others =>
    cases element with
    | mk name value =>
      obtain ⟨⟨index, named⟩, operands⟩ := List.forall_mem_cons.mp held
      obtain ⟨own, behind⟩ := List.forall_mem_append.mp operands
      obtain ⟨front, first⟩ := elementWritten_of_has value own
      obtain ⟨back, rest⟩ := elementsWritten_of_has others behind
      exact ⟨_, .cons named first rest⟩

end

/-- Annotations can be written over every pool that has their operands. -/
theorem annotationsWritten_of_has (trees : List Annotation)
    (held : ∀ tree ∈ trees, ∀ constant ∈ annotationOperands tree, pool.Has constant) :
    ∃ bytes, AnnotationsWritten pool trees bytes := by
  have parts : ∃ parts, List.Forall₂ (AnnotationWritten pool) trees parts := by
    induction trees with
    | nil => exact ⟨[], .nil⟩
    | cons tree trees ih =>
      obtain ⟨own, others⟩ := List.forall_mem_cons.mp held
      obtain ⟨front, first⟩ := annotationWritten_of_has tree own
      obtain ⟨parts, rest⟩ := ih others
      exact ⟨front :: parts, .cons first rest⟩
  obtain ⟨parts, each⟩ := parts
  exact ⟨_, parts, each, rfl⟩

end Writing

/-! ## Reading -/

section Reading

variable {pool : ConstantPool} {visible : Bool}

theorem reads_held {α : Type} {select : UInt16 → Except ClassFileError α} {index : UInt16} {a : α}
    (h : select index = .ok a) : Reads (operand select) (word2 index.toNat) a :=
  (reads_index index).bind_nil (reads_lift h)

/-- The name of an annotation or enum type, in front of what else belongs to it. -/
theorem reads_typeName {β : Type} {next : String → Reader β} {typeName : String} {more : Bytes}
    {index : UInt16} {b : β} (nameable : JavaType.Nameable typeName)
    (named : pool.Holds index (descriptorOf (.object typeName)))
    (h : Reads (next typeName) more b) :
    Reads (operand pool.text >>= fun text => lift (objectName text) >>= next)
      (word2 index.toNat ++ more) b := by
  have object : objectName (String.ofList (JavaType.object typeName).render) = .ok typeName := by
    rw [objectName, JavaType.parse_render (.component (.object nameable))]
    rfl
  exact (reads_held (pool.text_of_holds named)).bind (reads_lift_bind object h)

theorem literalType_render {type : JavaType} (h : type = .void ∨ type.IsField) :
    literalType (String.ofList type.render) = .ok type := by
  rcases h with rfl | field
  · rfl
  · exact literalType_of_parse (JavaType.parse_render field)

-- The induction follows the grammar. No depth is carried along, since element values obey their own
-- rule.
mutual

theorem reads_elementValue_written {value : ElementValue} {bytes : Bytes}
    (h : value.Encodable visible) (written : ElementWritten pool value bytes) :
    Reads (elementValue pool visible) bytes value := by
  rw [elementValue_eq]
  cases written with
  | byte held =>
    have number := reads_held (pool.integer_of_holds held)
    exact (reads_u1 _).bind (number.map fun n => ElementValue.byte n.toInt8)
  | char held =>
    have number := reads_held (pool.integer_of_holds held)
    have read := number.map fun n => ElementValue.char (ConstantPool.charOf n)
    rw [ConstantPool.charOf_ofNat h] at read
    exact (reads_u1 _).bind read
  | short held =>
    have number := reads_held (pool.integer_of_holds held)
    exact (reads_u1 _).bind (number.map fun n => ElementValue.short n.toInt16)
  | boolean held =>
    have number := reads_held (pool.integer_of_holds held)
    exact (reads_u1 _).bind (number.map fun n => ElementValue.boolean (n ≠ 0))
  | int held =>
    exact (reads_u1 _).bind ((reads_held (pool.integer_of_holds held)).map ElementValue.int)
  | long held =>
    exact (reads_u1 _).bind ((reads_held (pool.long_of_holds held)).map ElementValue.long)
  | float held =>
    exact (reads_u1 _).bind ((reads_held (pool.float_of_holds held)).map ElementValue.float)
  | double held =>
    exact (reads_u1 _).bind ((reads_held (pool.double_of_holds held)).map ElementValue.double)
  | string held =>
    exact (reads_u1 _).bind ((reads_held (pool.text_of_holds held)).map ElementValue.string)
  | enum named held =>
    have constant := reads_held (pool.text_of_holds held)
    exact (reads_u1 _).bind (reads_typeName h named (constant.map _))
  | @classLiteral index type held =>
    have text := reads_held (pool.text_of_holds held)
    have literal : Reads (lift (literalType (String.ofList type.render)) >>= fun read =>
        pure (ElementValue.classLiteral read)) [] (.classLiteral type) :=
      reads_lift_bind (literalType_render h) (Reads.pure _)
    exact (reads_u1 _).bind (text.bind_nil literal)
  | nested inner =>
    exact (reads_u1 _).bind ((reads_annotation_written h inner).map _)
  | array inner =>
    have values := reads_values_written h.2 inner
    apply (reads_u1 _).bind
    apply (reads_u2 _).bind
    rw [toNat_ofNat_u2 h.1]
    exact values.map ElementValue.array

theorem reads_values_written {values : List ElementValue} {bytes : Bytes}
    (h : ValuesEncodable visible values) (written : ValuesWritten pool values bytes) :
    Reads (times values.length (elementValue pool visible)) bytes values := by
  cases written with
  | nil => exact Reads.pure []
  | @cons value others front back first rest =>
    have one := reads_elementValue_written h.1 first
    have next := reads_values_written h.2 rest
    exact one.bind (next.map (value :: ·))

theorem reads_annotation_written {tree : Annotation} {bytes : Bytes}
    (h : tree.Encodable visible) (written : AnnotationWritten pool tree bytes) :
    Reads (annotationItem pool visible (elementValue pool visible)) bytes tree := by
  cases written with
  | mk named inner =>
    obtain ⟨nameable, same, few, each⟩ := h
    rw [same]
    have elements := reads_elements_written each inner
    apply reads_typeName nameable named
    apply (reads_u2 _).bind
    rw [toNat_ofNat_u2 few]
    exact elements.map _

theorem reads_elements_written {elements : List AnnotationElement} {bytes : Bytes}
    (h : ElementsEncodable visible elements) (written : ElementsWritten pool elements bytes) :
    Reads (times elements.length (readElement pool (elementValue pool visible)))
      bytes elements := by
  cases written with
  | nil => exact Reads.pure []
  | @cons index name value others front back named first rest =>
    have text := reads_held (pool.text_of_holds named)
    have one := reads_elementValue_written h.1 first
    have next := reads_elements_written h.2 rest
    exact (text.bind (one.map _)).bind (next.map (AnnotationElement.mk name value :: ·))

end

theorem reads_row_written {trees : List Annotation} {parts : List Bytes}
    (encodable : ∀ tree ∈ trees, tree.Encodable visible)
    (written : List.Forall₂ (AnnotationWritten pool) trees parts) :
    Reads (times trees.length (annotationItem pool visible (elementValue pool visible)))
      parts.flatten trees := by
  induction written with
  | nil => exact Reads.pure []
  | @cons tree part trees parts first rest ih =>
    obtain ⟨own, others⟩ := List.forall_mem_cons.mp encodable
    have one := reads_annotation_written own first
    exact one.bind ((ih others).map (tree :: ·))

theorem reads_annotations_written {trees : List Annotation} {bytes : Bytes}
    (few : trees.length < 0x10000) (encodable : ∀ tree ∈ trees, tree.Encodable visible)
    (written : AnnotationsWritten pool trees bytes) :
    Reads (readAnnotations pool visible) bytes trees := by
  obtain ⟨parts, each, rfl⟩ := written
  apply (reads_u2 _).bind
  rw [toNat_ofNat_u2 few]
  exact reads_row_written encodable each

end Reading

/-- Annotation trees can be written over every pool that holds their operands, and however they are
written they are read back: the same trees, from exactly those bytes. So it is behind the bytes of
the pool itself, where numbers of two slots stand in two halves. -/
theorem reads_annotationTrees (visible : Bool) (trees : List Annotation) (pool : ConstantPool)
    (few : trees.length < 0x10000) (encodable : ∀ tree ∈ trees, tree.Encodable visible)
    (held : ∀ tree ∈ trees, ∀ constant ∈ annotationOperands tree, pool.Has constant) :
    (∃ bytes, AnnotationsWritten pool trees bytes) ∧
    ∀ bytes, AnnotationsWritten pool trees bytes →
      Reads (readAnnotations pool visible) bytes trees ∧
      ∀ constants, PoolFits constants → poolOf constants = pool →
        Reads (ConstantPool.read >>= fun pool => readAnnotations pool visible)
          (poolBytes constants ++ bytes) trees := by
  refine ⟨annotationsWritten_of_has trees held, ?_⟩
  intro bytes written
  have read : Reads (readAnnotations pool visible) bytes trees :=
    reads_annotations_written few encodable written
  refine ⟨read, ?_⟩
  intro constants fits same
  subst same
  exact (reads_pool fits).bind read

/-- The constants of `nestedTree`. The long one takes two slots. -/
def nestedConstants : List ConstantForm :=
  [.text ("La/B;".toList.map fun c => UInt16.ofNat c.toNat), .text [0x76], .long (-2),
    .integer (-1), .integer 0x41, .integer 1, .text [0x56]]

/-- `@a.B(v = {-1, 'A', true, -2L, void.class, @a.B, a.B.v})`. -/
def nestedTree : Annotation :=
  .mk "a.B" true [.mk "v" (.array [.byte (-1), .char 'A', .boolean true, .long (-2),
    .classLiteral .void, .nested (.mk "a.B" true []), .enum "a.B" "v"])]

theorem reads_nestedTree :
    ∃ bytes, AnnotationsWritten (poolOf nestedConstants) [nestedTree] bytes ∧
      Reads (ConstantPool.read >>= fun pool => readAnnotations pool true)
        (poolBytes nestedConstants ++ bytes) [nestedTree] := by
  have nameable : JavaType.Nameable "a.B" := ⟨by decide, by decide, by decide⟩
  have encodable : ∀ tree ∈ [nestedTree], tree.Encodable true := by
    simp [nestedTree, Annotation.Encodable, ElementsEncodable, ElementValue.Encodable,
      ValuesEncodable, nameable]
  have held : ∀ tree ∈ [nestedTree], ∀ constant ∈ annotationOperands tree,
      (poolOf nestedConstants).Has constant := by
    have type : (poolOf nestedConstants).Has (descriptorOf (.object "a.B")) := ⟨1, rfl⟩
    have name : (poolOf nestedConstants).Has (.text "v") := ⟨2, rfl⟩
    have minus : (poolOf nestedConstants).Has (.integer (-1)) := ⟨5, rfl⟩
    have letter : (poolOf nestedConstants).Has (.integer 0x41) := ⟨6, rfl⟩
    have one : (poolOf nestedConstants).Has (.integer 1) := ⟨7, rfl⟩
    have long : (poolOf nestedConstants).Has (.long (-2)) := ⟨3, rfl⟩
    have void : (poolOf nestedConstants).Has (descriptorOf .void) := ⟨8, rfl⟩
    simp [nestedTree, annotationOperands, elementsOperands, elementOperands, valuesOperands, type,
      name, minus, letter, one, long, void]
  obtain ⟨⟨bytes, written⟩, read⟩ :=
    reads_annotationTrees true [nestedTree] (poolOf nestedConstants) (by decide) encodable held
  have fits : PoolFits nestedConstants := by
    constructor
    · decide
    · simp [nestedConstants, ConstantForm.Fits, unitBytes, ModifiedUtf8.encodeUnit]
  exact ⟨bytes, written, (read bytes written).2 nestedConstants fits rfl⟩

end ClassFile

end ClassAtlas
