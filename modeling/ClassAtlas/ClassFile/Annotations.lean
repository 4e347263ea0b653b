import ClassAtlas.ClassFile.ConstantPool
import ClassAtlas.Descriptor

/-!
# Annotation attributes

Annotations hold element values and element values hold annotations. As with signatures, each
rule is written over a given reader of element values, and `elementValueWithin` ties the knot:
every level of nesting takes a byte, so the bytes at hand bound the depth.
-/

namespace ClassAtlas.ClassFile

/-- The class that an object descriptor names. -/
def objectName (descriptor : String) : Except ClassFileError String := do
  match (← JavaType.parse descriptor) with
  | .object name => return name
  | _ => .error (.badDescriptor descriptor)

/-- The type that a class literal names; `V` is `void`. -/
def literalType (descriptor : String) : Except ClassFileError JavaType :=
  if descriptor = "V" then .ok .void else JavaType.parse descriptor

section Rules

variable (pool : ConstantPool) (visible : Bool) (elementValue : Reader ElementValue)

/-- The constant that the next word designates. -/
def operand {α : Type} (select : UInt16 → Except ClassFileError α) : Reader α := do
  Reader.lift (select (← Reader.u2))

def readElement : Reader AnnotationElement := do
  let name ← operand pool.text
  let value ← elementValue
  return .mk name value

def annotationItem : Reader Annotation := do
  let descriptor ← operand pool.text
  let typeName ← Reader.lift (objectName descriptor)
  let count ← Reader.u2
  let elements ← Reader.times count.toNat (readElement pool elementValue)
  return .mk typeName visible elements

/-- An element value: a letter that gives its kind, and its content. -/
def readElementValue : Reader ElementValue := do
  let tag ← Reader.u1
  match Char.ofNat tag.toNat with
  | 'B' => return .byte (← operand pool.integer).toInt8
  | 'C' => return .char (ConstantPool.charOf (← operand pool.integer))
  | 'S' => return .short (← operand pool.integer).toInt16
  | 'Z' => return .boolean ((← operand pool.integer) ≠ 0)
  | 'I' => return .int (← operand pool.integer)
  | 'J' => return .long (← operand pool.long)
  | 'F' => return .float (← operand pool.float)
  | 'D' => return .double (← operand pool.double)
  | 's' => return .string (← operand pool.text)
  | 'e' =>
    let descriptor ← operand pool.text
    let typeName ← Reader.lift (objectName descriptor)
    let constant ← operand pool.text
    return .enum typeName constant
  | 'c' =>
    let descriptor ← operand pool.text
    return .classLiteral (← Reader.lift (literalType descriptor))
  | '@' => return .nested (← annotationItem pool visible elementValue)
  | '[' =>
    let count ← Reader.u2
    return .array (← Reader.times count.toNat elementValue)
  | letter => Reader.fail (.badElementTag letter)

end Rules

/-- Element values that are nested less than `depth` deep. -/
def elementValueWithin (pool : ConstantPool) (visible : Bool) : Nat → Reader ElementValue
  | 0 => Reader.fail .unexpectedEnd
  | depth + 1 => readElementValue pool visible (elementValueWithin pool visible depth)

/-- An element value in front of the bytes. -/
def elementValue (pool : ConstantPool) (visible : Bool) : Reader ElementValue := fun bytes =>
  elementValueWithin pool visible bytes.length bytes

/-- The content of an annotation attribute. -/
def readAnnotations (pool : ConstantPool) (visible : Bool) : Reader (List Annotation) := do
  let count ← Reader.u2
  Reader.times count.toNat (annotationItem pool visible (elementValue pool visible))

/-- The content of a parameter-annotation attribute: one list for each parameter. -/
def readParameterAnnotations (pool : ConstantPool) (visible : Bool) :
    Reader (List (List Annotation)) := do
  let count ← Reader.u1
  Reader.times count.toNat (readAnnotations pool visible)

end ClassAtlas.ClassFile
