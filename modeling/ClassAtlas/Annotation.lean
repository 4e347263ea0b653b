import ClassAtlas.JavaType

/-!
# Annotations and constant values

Floating-point constants are kept as their IEEE bit patterns.
-/

namespace ClassAtlas

mutual

/-- The value of an annotation element or of a constant field. -/
inductive ElementValue where
  | boolean (value : Bool)
  | byte (value : Int8)
  | char (value : Char)
  | short (value : Int16)
  | int (value : Int32)
  | long (value : Int64)
  | float (bits : UInt32)
  | double (bits : UInt64)
  | string (value : String)
  | enum (typeName constant : String)
  | classLiteral (type : JavaType)
  | nested (value : Annotation)
  | array (values : List ElementValue)

/-- A named element of an annotation. -/
inductive AnnotationElement where
  | mk (name : String) (value : ElementValue)

/-- An annotation on a class, a member or a parameter. It is visible if it is kept at run time. -/
inductive Annotation where
  | mk (typeName : String) (visible : Bool) (elements : List AnnotationElement)

end

instance : Inhabited ElementValue := ⟨.boolean false⟩
instance : Inhabited Annotation := ⟨.mk "" false []⟩

namespace AnnotationElement

def name : AnnotationElement → String
  | mk name _ => name

def value : AnnotationElement → ElementValue
  | mk _ value => value

end AnnotationElement

namespace Annotation

def typeName : Annotation → String
  | mk typeName _ _ => typeName

def visible : Annotation → Bool
  | mk _ visible _ => visible

def elements : Annotation → List AnnotationElement
  | mk _ _ elements => elements

/-- The value of the first element of that name. -/
def element? (marked : Annotation) (name : String) : Option ElementValue :=
  (marked.elements.find? (·.name = name)).map (·.value)

end Annotation

mutual

/-- Every class that the value mentions: enum types, class literals and annotation types. -/
def ElementValue.classNames : ElementValue → List String
  | .enum typeName _ => [typeName]
  | .classLiteral type => type.className?.toList
  | .nested value => value.classNames
  | .array values => namesInValues values
  | _ => []

/-- Every class that a list of values mentions. -/
def namesInValues : List ElementValue → List String
  | [] => []
  | value :: others => value.classNames ++ namesInValues others

/-- The annotation type, then every class that its elements mention. -/
def Annotation.classNames : Annotation → List String
  | .mk typeName _ elements => typeName :: namesInElements elements

/-- Every class that a list of elements mentions. -/
def namesInElements : List AnnotationElement → List String
  | [] => []
  | element :: others => element.classNames ++ namesInElements others

def AnnotationElement.classNames : AnnotationElement → List String
  | .mk _ value => value.classNames

end

end ClassAtlas
