import ClassAtlas.ClassFile.Decode
import ClassAtlas.Proofs.ClassFile.Reads

/-!
# The form of class files

An abstract class file, the bytes it is laid out in, and the class it declares. Nothing here reads
bytes.

* `StandsAt` says which constant an index designates; an `Operand` carries an index with what it
  designates, so no class file can be built whose operands designate nothing.
* `bytes` lays a form out and `Fits` says that its counts and lengths fit the words they have.
* `ClassForm.decl` is the declared class: every text resolved through the constants, repeated
  attributes settled by what comes last or joined in file order.
-/

namespace ClassAtlas.ClassFile

open Reader (word1 word2 word4 word8)

/-! ## Constants -/

/-- Constants of two indices, which only code refers to. -/
inductive PairKind where
  | fieldRef
  | methodRef
  | interfaceMethodRef
  | nameAndType
  | dynamic
  | invokeDynamic
  deriving DecidableEq

def PairKind.tag : PairKind → Nat
  | fieldRef => 9
  | methodRef => 10
  | interfaceMethodRef => 11
  | nameAndType => 12
  | dynamic => 17
  | invokeDynamic => 18

/-- Constants of one index, which only code refers to. -/
inductive SingleKind where
  | methodType
  | module
  | package
  deriving DecidableEq

def SingleKind.tag : SingleKind → Nat
  | methodType => 16
  | module => 19
  | package => 20

/-- A constant as a class file has it. -/
inductive ConstantForm where
  /-- Text, as its UTF-16 code units. -/
  | text (units : List UInt16)
  | integer (value : Int32)
  | float (bits : UInt32)
  | long (value : Int64)
  | double (bits : UInt64)
  | classRef (nameIndex : UInt16)
  | stringRef (textIndex : UInt16)
  | pair (kind : PairKind) (first second : UInt16)
  | methodHandle (kind : UInt8) (reference : UInt16)
  | single (kind : SingleKind) (index : UInt16)
  deriving DecidableEq

/-- Code units in modified UTF-8. -/
def unitBytes (units : List UInt16) : Bytes :=
  units.flatMap fun unit => ModifiedUtf8.encodeUnit unit.toNat

/-- The text of code units. A surrogate without its partner is replaced. -/
def unitText (units : List UInt16) : String :=
  String.ofList (Utf16.decodeLossy (units.map UInt16.toNat))

namespace ConstantForm

def bytes : ConstantForm → Bytes
  | text units => word1 1 ++ (word2 (unitBytes units).length ++ unitBytes units)
  | integer value => word1 3 ++ word4 value.toUInt32.toNat
  | float bits => word1 4 ++ word4 bits.toNat
  | long value => word1 5 ++ word8 value.toUInt64.toNat
  | double bits => word1 6 ++ word8 bits.toNat
  | classRef nameIndex => word1 7 ++ word2 nameIndex.toNat
  | stringRef textIndex => word1 8 ++ word2 textIndex.toNat
  | pair kind first second => word1 kind.tag ++ (word2 first.toNat ++ word2 second.toNat)
  | methodHandle kind reference => word1 15 ++ (word1 kind.toNat ++ word2 reference.toNat)
  | single kind index => word1 kind.tag ++ word2 index.toNat

def Fits : ConstantForm → Prop
  | text units => (unitBytes units).length < 0x10000
  | _ => True

/-- How many indices the constant takes. -/
def width : ConstantForm → Nat
  | long _ | double _ => 2
  | _ => 1

end ConstantForm

/-- How many indices the constants take together. -/
def slotCount : List ConstantForm → Nat
  | [] => 0
  | constant :: constants => constant.width + slotCount constants

/-- The constants after their count, which is one more than the indices they take. -/
def poolBytes (constants : List ConstantForm) : Bytes :=
  word2 (slotCount constants + 1) ++ constants.flatMap ConstantForm.bytes

def PoolFits (constants : List ConstantForm) : Prop :=
  slotCount constants + 1 < 0x10000 ∧ ∀ constant ∈ constants, constant.Fits

/-! ## Operands -/

section Operands

variable (constants : List ConstantForm)

/-- The index designates the constant: one, and the indices taken in front of the constant. -/
def StandsAt (index : UInt16) (constant : ConstantForm) : Prop :=
  ∃ front rest, constants = front ++ constant :: rest ∧ index.toNat = 1 + slotCount front

def NamesText (index : UInt16) (text : String) : Prop :=
  ∃ units, StandsAt constants index (.text units) ∧ text = unitText units

/-- The index designates a class constant. Its name is written with slashes and told with dots. -/
def NamesClass (index : UInt16) (name : String) : Prop :=
  ∃ nameIndex internal, StandsAt constants index (.classRef nameIndex) ∧
    NamesText constants nameIndex internal ∧
    name = String.ofList (ClassName.dotted internal.toList)

/-- The index designates a text that can be read as a value. -/
def NamesParsed {α : Type} (parse : String → Except ClassFileError α) (index : UInt16) (value : α) :
    Prop :=
  ∃ text, NamesText constants index text ∧ parse text = .ok value

/-- The index designates the descriptor of a class type. -/
def NamesObject (index : UInt16) (name : String) : Prop :=
  NamesParsed constants JavaType.parse index (.object name)

/-- The index designates a class literal: the descriptor of a type, or `V`. -/
def NamesLiteral (index : UInt16) (type : JavaType) : Prop :=
  (NamesText constants index "V" ∧ type = .void) ∨ NamesParsed constants JavaType.parse index type

/-- The index designates a constant, of which `value` is what a field of the type starts with. -/
inductive NamesInitial (type : JavaType) (index : UInt16) : ElementValue → Prop where
  | boolean {v : Int32} (stands : StandsAt constants index (.integer v))
      (ht : type = .primitive .boolean) : NamesInitial type index (.boolean (v ≠ 0))
  | byte {v : Int32} (stands : StandsAt constants index (.integer v))
      (ht : type = .primitive .byte) : NamesInitial type index (.byte v.toInt8)
  | char {v : Int32} (stands : StandsAt constants index (.integer v))
      (ht : type = .primitive .char) : NamesInitial type index (.char (ConstantPool.charOf v))
  | short {v : Int32} (stands : StandsAt constants index (.integer v))
      (ht : type = .primitive .short) : NamesInitial type index (.short v.toInt16)
  | int {v : Int32} (stands : StandsAt constants index (.integer v))
      (ht : type ∉ [JavaType.primitive .boolean, .primitive .byte, .primitive .char,
        .primitive .short]) : NamesInitial type index (.int v)
  | long {v : Int64} (stands : StandsAt constants index (.long v)) :
      NamesInitial type index (.long v)
  | float {bits : UInt32} (stands : StandsAt constants index (.float bits)) :
      NamesInitial type index (.float bits)
  | double {bits : UInt64} (stands : StandsAt constants index (.double bits)) :
      NamesInitial type index (.double bits)
  | string {textIndex : UInt16} {text : String}
      (stands : StandsAt constants index (.stringRef textIndex))
      (names : NamesText constants textIndex text) : NamesInitial type index (.string text)

end Operands

/-- An index, and what it designates. -/
structure Operand {α : Type} (Designates : UInt16 → α → Prop) where
  index : UInt16
  value : α
  designates : Designates index value

def Operand.bytes {α : Type} {Designates : UInt16 → α → Prop} (operand : Operand Designates) :
    Bytes :=
  word2 operand.index.toNat

/-! ## Annotations -/

/-- The kinds of element value that an integer constant gives. -/
inductive IntegralKind where
  | byte
  | char
  | short
  | boolean
  | int
  deriving DecidableEq

namespace IntegralKind

def tag : IntegralKind → Char
  | byte => 'B'
  | char => 'C'
  | short => 'S'
  | boolean => 'Z'
  | int => 'I'

def value (v : Int32) : IntegralKind → ElementValue
  | byte => .byte v.toInt8
  | char => .char (ConstantPool.charOf v)
  | short => .short v.toInt16
  | boolean => .boolean (v ≠ 0)
  | int => .int v

end IntegralKind

variable (constants : List ConstantForm)

mutual

inductive ElementForm where
  | integral (kind : IntegralKind)
      (operand : Operand fun index v => StandsAt constants index (.integer v))
  | long (operand : Operand fun index v => StandsAt constants index (.long v))
  | float (operand : Operand fun index bits => StandsAt constants index (.float bits))
  | double (operand : Operand fun index bits => StandsAt constants index (.double bits))
  | string (operand : Operand (NamesText constants))
  | enum (type : Operand (NamesObject constants)) (constant : Operand (NamesText constants))
  | classLiteral (type : Operand (NamesLiteral constants))
  | nested (form : AnnotationForm)
  | array (values : List ElementForm)

inductive AnnotationForm where
  | mk (type : Operand (NamesObject constants))
      (elements : List (Operand (NamesText constants) × ElementForm))

end

variable {constants}

mutual

/-- A letter for the kind of value, and its operands or content. -/
def ElementForm.bytes : ElementForm constants → Bytes
  | .integral kind operand => word1 kind.tag.toNat ++ operand.bytes
  | .long operand => word1 'J'.toNat ++ operand.bytes
  | .float operand => word1 'F'.toNat ++ operand.bytes
  | .double operand => word1 'D'.toNat ++ operand.bytes
  | .string operand => word1 's'.toNat ++ operand.bytes
  | .enum type constant => word1 'e'.toNat ++ (type.bytes ++ constant.bytes)
  | .classLiteral type => word1 'c'.toNat ++ type.bytes
  | .nested form => word1 '@'.toNat ++ form.bytes
  | .array values => word1 '['.toNat ++ (word2 values.length ++ bytesOfValues values)

def bytesOfValues : List (ElementForm constants) → Bytes
  | [] => []
  | value :: others => value.bytes ++ bytesOfValues others

def AnnotationForm.bytes : AnnotationForm constants → Bytes
  | .mk type elements => type.bytes ++ (word2 elements.length ++ bytesOfElements elements)

def bytesOfElements : List (Operand (NamesText constants) × ElementForm constants) → Bytes
  | [] => []
  | (name, value) :: others => (name.bytes ++ value.bytes) ++ bytesOfElements others

end

mutual

def ElementForm.Fits : ElementForm constants → Prop
  | .nested form => form.Fits
  | .array values => values.length < 0x10000 ∧ ValuesFit values
  | _ => True

def ValuesFit : List (ElementForm constants) → Prop
  | [] => True
  | value :: others => value.Fits ∧ ValuesFit others

def AnnotationForm.Fits : AnnotationForm constants → Prop
  | .mk _ elements => elements.length < 0x10000 ∧ ElementsFit elements

def ElementsFit : List (Operand (NamesText constants) × ElementForm constants) → Prop
  | [] => True
  | (_, value) :: others => value.Fits ∧ ElementsFit others

end

mutual

/-- The value with its operands resolved. Annotations in it are as visible as the one around. -/
def ElementForm.value (visible : Bool) : ElementForm constants → ElementValue
  | .integral kind operand => kind.value operand.value
  | .long operand => .long operand.value
  | .float operand => .float operand.value
  | .double operand => .double operand.value
  | .string operand => .string operand.value
  | .enum type constant => .enum type.value constant.value
  | .classLiteral type => .classLiteral type.value
  | .nested form => .nested (form.annotation visible)
  | .array values => .array (valuesOfForms visible values)

def valuesOfForms (visible : Bool) : List (ElementForm constants) → List ElementValue
  | [] => []
  | value :: others => value.value visible :: valuesOfForms visible others

def AnnotationForm.annotation (visible : Bool) : AnnotationForm constants → Annotation
  | .mk type elements => .mk type.value visible (elementsOfForms visible elements)

def elementsOfForms (visible : Bool) :
    List (Operand (NamesText constants) × ElementForm constants) → List AnnotationElement
  | [] => []
  | (name, value) :: others =>
    .mk name.value (value.value visible) :: elementsOfForms visible others

end

/-- The content of an annotation attribute. -/
def annotationBytes (forms : List (AnnotationForm constants)) : Bytes :=
  word2 forms.length ++ forms.flatMap AnnotationForm.bytes

def AnnotationsFit (forms : List (AnnotationForm constants)) : Prop :=
  forms.length < 0x10000 ∧ ∀ form ∈ forms, form.Fits

end ClassAtlas.ClassFile
