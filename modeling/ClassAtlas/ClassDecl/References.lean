import ClassAtlas.ClassDecl

/-!
# References from one class to others

`ClassDecl.mentions` reads a declaration from top to bottom and lists every class name it meets
with the role it has there. `ClassDecl.references` is that list without mentions of the class
itself and with every pair of target and role once, where it first occurs.
-/

namespace ClassAtlas

/-- The role of one class in the declaration of another, in the order in which reports list
them. -/
inductive DependencyKind where
  | extending
  | implementing
  | fieldType
  | parameterType
  | returnType
  | throwsType
  | annotationType
  /-- A type argument, or a bound of a type parameter. -/
  | typeArgument
  | enclosingClass
  deriving Repr, DecidableEq, Inhabited

namespace DependencyKind

/-- The place in the order of kinds. -/
def rank : DependencyKind → Nat
  | extending => 0
  | implementing => 1
  | fieldType => 2
  | parameterType => 3
  | returnType => 4
  | throwsType => 5
  | annotationType => 6
  | typeArgument => 7
  | enclosingClass => 8

/-- The words between the two names. -/
def label : DependencyKind → String
  | extending => "extends"
  | implementing => "implements"
  | fieldType => "has field of type"
  | parameterType => "has parameter of type"
  | returnType => "has return type"
  | throwsType => "declares to throw"
  | annotationType => "is annotated with"
  | typeArgument => "has generic type argument"
  | enclosingClass => "is enclosed by"

end DependencyKind

/-- A reference by name. -/
structure ClassReference where
  target : String
  kind : DependencyKind
  deriving Repr, DecidableEq, Inhabited

namespace ClassReference

/-- References of one kind. -/
def ofKind (kind : DependencyKind) (targets : List String) : List ClassReference :=
  targets.map fun target => { target, kind }

def ofAnnotations (annotations : List Annotation) : List ClassReference :=
  ofKind .annotationType (annotations.flatMap Annotation.classNames)

end ClassReference

open ClassReference

/-- Bounds of type parameters count in full, supertypes only with their arguments. -/
def ClassSignature.mentions (signature : ClassSignature) : List ClassReference :=
  ofKind .typeArgument
    (signature.typeParameters.flatMap TypeParameter.classNames ++
      signature.superclass.argumentClassNames ++
      signature.interfaces.flatMap TypeSignature.argumentClassNames)

/-- Bounds of type parameters count in full, parameters and the return type only with their
arguments. -/
def MethodSignature.mentions (signature : MethodSignature) : List ClassReference :=
  ofKind .typeArgument
    (signature.typeParameters.flatMap TypeParameter.classNames ++
      signature.parameters.flatMap TypeSignature.argumentClassNames ++
      signature.returnType.argumentClassNames)

def FieldDecl.mentions (field : FieldDecl) : List ClassReference :=
  ofKind .fieldType field.type.className?.toList ++
    ofKind .typeArgument (field.signature.toList.flatMap TypeSignature.argumentClassNames) ++
    ofAnnotations field.annotations

def MethodDecl.mentions (method : MethodDecl) : List ClassReference :=
  ofKind .parameterType (method.parameters.flatMap (·.className?.toList)) ++
    ofKind .returnType method.returnType.className?.toList ++
    ofKind .throwsType method.exceptions ++
    method.signature.toList.flatMap MethodSignature.mentions ++
    ofAnnotations method.annotations ++
    method.parameterAnnotations.flatMap ofAnnotations

namespace ClassDecl

/-- Every class name of the declaration with its role, from top to bottom. -/
def mentions (decl : ClassDecl) : List ClassReference :=
  ofKind .extending decl.superclass.toList ++
    ofKind .implementing decl.interfaces ++
    ofKind .enclosingClass decl.enclosingClass.toList ++
    decl.signature.toList.flatMap ClassSignature.mentions ++
    ofAnnotations decl.annotations ++
    decl.fields.flatMap FieldDecl.mentions ++
    decl.methods.flatMap MethodDecl.mentions

/-- The distinct references to other classes, in the order of their first mention. -/
def references (decl : ClassDecl) : List ClassReference :=
  (decl.mentions.filter (·.target ≠ decl.name)).eraseDups

end ClassDecl

end ClassAtlas
