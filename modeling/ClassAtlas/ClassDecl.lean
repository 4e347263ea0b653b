import ClassAtlas.AccessFlags
import ClassAtlas.Annotation
import ClassAtlas.ClassName
import ClassAtlas.Signature

/-!
# Declared classes

What a class file says about its class: symbolic names only, nothing is linked here.
-/

namespace ClassAtlas

structure FieldDecl where
  name : String
  access : AccessFlags
  type : JavaType
  signature : Option TypeSignature
  constant : Option ElementValue
  annotations : List Annotation
  deriving Inhabited

structure MethodDecl where
  name : String
  access : AccessFlags
  parameters : List JavaType
  returnType : JavaType
  exceptions : List String
  signature : Option MethodSignature
  annotations : List Annotation
  /-- One list of annotations for each parameter that the attributes count. -/
  parameterAnnotations : List (List Annotation)
  deriving Inhabited

namespace MethodDecl

def isConstructor (method : MethodDecl) : Bool := method.name = "<init>"

def isStaticInitializer (method : MethodDecl) : Bool := method.name = "<clinit>"

end MethodDecl

/-- What kind of type is declared. -/
inductive ClassKind where
  | plain
  | interface
  | enum
  | annotationType
  | record
  deriving Repr, DecidableEq, Inhabited

/-- A class as its class file declares it. Names are dotted; nested classes keep their `$`. -/
structure ClassDecl where
  name : String
  superclass : Option String
  interfaces : List String
  access : AccessFlags
  majorVersion : UInt16
  minorVersion : UInt16
  fields : List FieldDecl
  methods : List MethodDecl
  annotations : List Annotation
  signature : Option ClassSignature
  sourceFile : Option String
  /-- The class that declares a member, local or anonymous class. -/
  enclosingClass : Option String
  deriving Inhabited

namespace ClassDecl

def packageName (decl : ClassDecl) : String := ClassName.package decl.name

def simpleName (decl : ClassDecl) : String := ClassName.simple decl.name decl.enclosingClass

/-- An annotation type is an interface too, so the more special kind is asked for first. -/
def kind (decl : ClassDecl) : ClassKind :=
  if decl.access.has .annotationType then .annotationType
  else if decl.access.has .interfaceType then .interface
  else if decl.access.has .enumType then .enum
  else if decl.superclass = some "java.lang.Record" then .record
  else .plain

def isPackageInfo (decl : ClassDecl) : Bool := ClassName.simplePart decl.name = "package-info"

def isNested (decl : ClassDecl) : Bool := decl.enclosingClass.isSome

/-- The first field of that name. -/
def field? (decl : ClassDecl) (name : String) : Option FieldDecl :=
  decl.fields.find? (·.name = name)

/-- The methods of that name, in file order. -/
def methodsNamed (decl : ClassDecl) (name : String) : List MethodDecl :=
  decl.methods.filter (·.name = name)

/-- The first annotation of that type. -/
def annotation? (decl : ClassDecl) (typeName : String) : Option Annotation :=
  decl.annotations.find? (·.typeName = typeName)

end ClassDecl

end ClassAtlas
