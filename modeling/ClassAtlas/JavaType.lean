/-!
# Erased types

The types that field and method descriptors name: primitives, classes, arrays, and `void` for
methods that return nothing. Class names are dotted (`java.lang.String`).
-/

namespace ClassAtlas

/-- The eight primitive types. -/
inductive Primitive where
  | byte
  | char
  | double
  | float
  | int
  | long
  | short
  | boolean
  deriving Repr, DecidableEq, Inhabited

namespace Primitive

/-- The letter that stands for the type in a descriptor. -/
def tag : Primitive → Char
  | byte => 'B'
  | char => 'C'
  | double => 'D'
  | float => 'F'
  | int => 'I'
  | long => 'J'
  | short => 'S'
  | boolean => 'Z'

def ofTag? : Char → Option Primitive
  | 'B' => some byte
  | 'C' => some char
  | 'D' => some double
  | 'F' => some float
  | 'I' => some int
  | 'J' => some long
  | 'S' => some short
  | 'Z' => some boolean
  | _ => none

theorem ofTag?_tag (p : Primitive) : ofTag? p.tag = some p := by cases p <;> rfl

/-- The word for the type in source code. -/
def keyword : Primitive → String
  | byte => "byte"
  | char => "char"
  | double => "double"
  | float => "float"
  | int => "int"
  | long => "long"
  | short => "short"
  | boolean => "boolean"

end Primitive

/-- A type after erasure. A descriptor gives an array its element type and all its dimensions
at once, so the element is then no array itself. -/
inductive JavaType where
  | primitive (type : Primitive)
  | void
  | object (name : String)
  | array (element : JavaType) (dimensions : Nat)
  deriving Repr, DecidableEq, Inhabited

namespace JavaType

/-- The class that the type refers to, seen through array dimensions. -/
def className? : JavaType → Option String
  | object name => some name
  | array element _ => element.className?
  | primitive _ | void => none

def isArray : JavaType → Bool
  | array _ _ => true
  | _ => false

/-- The type as source code writes it. -/
def display : JavaType → String
  | primitive p => p.keyword
  | void => "void"
  | object name => name
  | array element dimensions => element.display ++ String.join (List.replicate dimensions "[]")

end JavaType

end ClassAtlas
