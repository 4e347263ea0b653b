import ClassAtlas.ClassName
import ClassAtlas.JavaType

/-!
# Generic types

The types that a `Signature` attribute gives back to erased code, the class names that they
mention, and their written form. `render` writes every class type with one dotted name; the
reader also accepts inner-class suffixes, which it joins to the name with `$`.
-/

namespace ClassAtlas

mutual

/-- A type with its type arguments. -/
inductive TypeSignature where
  | base (type : Primitive)
  | void
  | classType (name : String) (arguments : List TypeArgument)
  | typeVariable (name : String)
  | array (element : TypeSignature)

/-- An argument of a parameterized class type. -/
inductive TypeArgument where
  /-- The wildcard `?`. -/
  | any
  /-- The wildcard `? extends T`. -/
  | upper (bound : TypeSignature)
  /-- The wildcard `? super T`. -/
  | lower (bound : TypeSignature)
  | exactly (type : TypeSignature)

end

instance : Inhabited TypeSignature := ⟨.void⟩
instance : Inhabited TypeArgument := ⟨.any⟩

/-- A type parameter with its class bound, if it has one, and its interface bounds. -/
structure TypeParameter where
  name : String
  bounds : List TypeSignature
  deriving Inhabited

/-- The generic form of a class declaration. -/
structure ClassSignature where
  typeParameters : List TypeParameter
  superclass : TypeSignature
  interfaces : List TypeSignature
  deriving Inhabited

/-- The generic form of a method declaration. -/
structure MethodSignature where
  typeParameters : List TypeParameter
  parameters : List TypeSignature
  returnType : TypeSignature
  throws : List TypeSignature
  deriving Inhabited

/-! ## Class names -/

namespace TypeSignature

mutual

/-- Every class that the type mentions, outer names first. -/
def classNames : TypeSignature → List String
  | classType name arguments => name :: namesInArguments arguments
  | array element => element.classNames
  | base _ | void | typeVariable _ => []

/-- Every class that a list of arguments mentions. -/
def namesInArguments : List TypeArgument → List String
  | [] => []
  | argument :: others => argumentNames argument ++ namesInArguments others

def argumentNames : TypeArgument → List String
  | .any => []
  | .upper bound | .lower bound | .exactly bound => bound.classNames

end

/-- The classes that stand in type arguments. The outermost class itself is left out: the erased
descriptor names it already. -/
def argumentClassNames : TypeSignature → List String
  | classType _ arguments => namesInArguments arguments
  | array element => element.argumentClassNames
  | base _ | void | typeVariable _ => []

end TypeSignature

/-- Every class that the bounds mention. -/
def TypeParameter.classNames (parameter : TypeParameter) : List String :=
  parameter.bounds.flatMap TypeSignature.classNames

/-! ## Written form -/

namespace TypeSignature

mutual

/-- The type as a `Signature` attribute writes it. -/
def render : TypeSignature → List Char
  | base p => [p.tag]
  | void => ['V']
  | classType name arguments =>
    'L' :: ClassName.slashed name.toList ++ renderArguments arguments ++ [';']
  | typeVariable name => 'T' :: name.toList ++ [';']
  | array element => '[' :: element.render

/-- No arguments are written as nothing at all. -/
def renderArguments : List TypeArgument → List Char
  | [] => []
  | argument :: others => '<' :: renderArgument argument ++ renderMore others

def renderMore : List TypeArgument → List Char
  | [] => ['>']
  | argument :: others => renderArgument argument ++ renderMore others

def renderArgument : TypeArgument → List Char
  | .any => ['*']
  | .upper bound => '+' :: bound.render
  | .lower bound => '-' :: bound.render
  | .exactly type => type.render

end

end TypeSignature

end ClassAtlas
