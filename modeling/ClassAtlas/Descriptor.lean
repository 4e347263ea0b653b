import ClassAtlas.ClassFile.Error
import ClassAtlas.ClassName
import ClassAtlas.JavaType
import ClassAtlas.Text.Scan

/-!
# Field and method descriptors

`JavaType.parse` and `MethodType.parse` read descriptors, `JavaType.render` and `MethodType.render`
write them. A descriptor has to be used up by its type: anything that is left over makes the whole
text malformed.
-/

namespace ClassAtlas

namespace JavaType

/-- A primitive or a class: what an array may be made of. -/
def scanComponent : Scan JavaType := do
  if (← Scan.peek) = 'L' then
    Scan.expect 'L'
    let name ← Scan.word [';']
    Scan.expect ';'
    return object (String.ofList (ClassName.dotted name))
  else fun s =>
    match s with
    | [] => none
    | c :: rest => (Primitive.ofTag? c).map fun p => (primitive p, rest)

/-- A type in front of a text. An array has at most 255 dimensions. -/
def scan : Scan JavaType := fun s =>
  let dimensions := (s.takeWhile (· = '[')).length
  if 255 < dimensions then none
  else
    (scanComponent (s.drop dimensions)).map fun (element, rest) =>
      (if dimensions = 0 then element else array element dimensions, rest)

/-- The type that a field descriptor names. -/
def parse (descriptor : String) : Except ClassFileError JavaType :=
  match Scan.whole scan descriptor with
  | some type => .ok type
  | none => .error (.badDescriptor descriptor)

/-- The descriptor of a type. -/
def render : JavaType → List Char
  | primitive p => [p.tag]
  | void => ['V']
  | object name => 'L' :: ClassName.slashed name.toList ++ [';']
  | array element dimensions => List.replicate dimensions '[' ++ element.render

end JavaType

/-- What a method takes and returns. -/
structure MethodType where
  parameters : List JavaType
  returnType : JavaType
  deriving Repr, DecidableEq, Inhabited

namespace MethodType

/-- A return type: `V` or the type of a value. -/
def scanReturn : Scan JavaType := do
  if (← Scan.peek) = 'V' then
    Scan.expect 'V'
    return .void
  else
    JavaType.scan

def scan : Scan MethodType := do
  Scan.expect '('
  let parameters ← Scan.upTo ')' JavaType.scan
  let returnType ← scanReturn
  return { parameters, returnType }

/-- The parameters and the return type that a method descriptor names. -/
def parse (descriptor : String) : Except ClassFileError MethodType :=
  match Scan.whole scan descriptor with
  | some type => .ok type
  | none => .error (.badDescriptor descriptor)

/-- The descriptor of a method type. -/
def render (type : MethodType) : List Char :=
  '(' :: type.parameters.flatMap JavaType.render ++ ')' :: type.returnType.render

end MethodType

end ClassAtlas
