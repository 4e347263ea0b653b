import ClassAtlas.Proofs.ClassDecl.Mentions

/-!
# Classes that generic declarations name

A declaration names classes in the bounds of its type parameters, and in the arguments of its other
generic types. `ClassDecl.NamesIn` says in which part of it a class is so named. The references list
the classes that are named in any part but one: what an exception is parameterized by is passed over
(`ClassDecl.generics_listed`).
-/

namespace ClassAtlas

/-- The class is one that the type mentions, its own or one at any depth of its arguments. -/
def TypeSignature.Names (type : TypeSignature) (name : String) : Prop :=
  ∃ place, type.MentionsAt place name

/-- The class is one that the arguments of the type mention. -/
def TypeSignature.ArgumentsName (type : TypeSignature) (name : String) : Prop :=
  ∃ place, type.ArgumentsMentionAt place name

/-- A part of a declaration that is written in generic types. -/
inductive GenericPart where
  | classBound
  | superclass
  | interface
  | field
  | methodBound
  | parameter
  | returnType
  | thrown
  deriving DecidableEq

namespace ClassDecl

/-- The class is named in that part: bounds name all that they mention, other types only what their
arguments mention. -/
inductive NamesIn (decl : ClassDecl) (name : String) : GenericPart → Prop
  | classBound {signature : ClassSignature} {parameter : TypeParameter} {bound : TypeSignature}
    (told : decl.signature = some signature) (declared : parameter ∈ signature.typeParameters)
    (bounds : bound ∈ parameter.bounds) (inside : bound.Names name) :
    NamesIn decl name .classBound
  | superclass {signature : ClassSignature} (told : decl.signature = some signature)
    (inside : signature.superclass.ArgumentsName name) : NamesIn decl name .superclass
  | interface {signature : ClassSignature} {type : TypeSignature}
    (told : decl.signature = some signature) (there : type ∈ signature.interfaces)
    (inside : type.ArgumentsName name) : NamesIn decl name .interface
  | field {field : FieldDecl} {type : TypeSignature} (member : field ∈ decl.fields)
    (told : field.signature = some type) (inside : type.ArgumentsName name) :
    NamesIn decl name .field
  | methodBound {method : MethodDecl} {signature : MethodSignature} {parameter : TypeParameter}
    {bound : TypeSignature} (member : method ∈ decl.methods)
    (told : method.signature = some signature) (declared : parameter ∈ signature.typeParameters)
    (bounds : bound ∈ parameter.bounds) (inside : bound.Names name) :
    NamesIn decl name .methodBound
  | parameter {method : MethodDecl} {signature : MethodSignature} {type : TypeSignature}
    (member : method ∈ decl.methods) (told : method.signature = some signature)
    (there : type ∈ signature.parameters) (inside : type.ArgumentsName name) :
    NamesIn decl name .parameter
  | returnType {method : MethodDecl} {signature : MethodSignature}
    (member : method ∈ decl.methods) (told : method.signature = some signature)
    (inside : signature.returnType.ArgumentsName name) : NamesIn decl name .returnType
  | thrown {method : MethodDecl} {signature : MethodSignature} {type : TypeSignature}
    (member : method ∈ decl.methods) (told : method.signature = some signature)
    (there : type ∈ signature.throws) (inside : type.ArgumentsName name) :
    NamesIn decl name .thrown

variable {decl : ClassDecl} {name : String}

theorem namesIn_of_class {signature : ClassSignature} {place : Place}
    (told : decl.signature = some signature) (h : signature.MentionsAt place name) :
    ∃ part, part ≠ .thrown ∧ decl.NamesIn name part := by
  cases h with
  | parameter there inside =>
    obtain ⟨bounds, inside⟩ := inside
    exact ⟨.classBound, by decide, .classBound told (List.mem_of_getElem? there)
      (List.mem_of_getElem? bounds) ⟨_, inside⟩⟩
  | superclass inside => exact ⟨.superclass, by decide, .superclass told ⟨_, inside⟩⟩
  | interface there inside =>
    exact ⟨.interface, by decide, .interface told (List.mem_of_getElem? there) ⟨_, inside⟩⟩

theorem namesIn_of_method {method : MethodDecl} {signature : MethodSignature} {place : Place}
    (member : method ∈ decl.methods) (told : method.signature = some signature)
    (h : signature.MentionsAt place name) : ∃ part, part ≠ .thrown ∧ decl.NamesIn name part := by
  cases h with
  | typeParameter there inside =>
    obtain ⟨bounds, inside⟩ := inside
    exact ⟨.methodBound, by decide, .methodBound member told (List.mem_of_getElem? there)
      (List.mem_of_getElem? bounds) ⟨_, inside⟩⟩
  | parameter there inside =>
    exact ⟨.parameter, by decide, .parameter member told (List.mem_of_getElem? there) ⟨_, inside⟩⟩
  | returnType inside => exact ⟨.returnType, by decide, .returnType member told ⟨_, inside⟩⟩

/-- Type arguments are mentioned in generic types only, never by annotations. -/
theorem namesIn_of_mentionsAt {place : Place}
    (h : decl.MentionsAt place { target := name, kind := .typeArgument }) :
    ∃ part, part ≠ .thrown ∧ decl.NamesIn name part := by
  cases h with
  | signature told inside => exact namesIn_of_class told inside
  | marked inside => cases inside
  | field there inside =>
    cases inside with
    | signature told inside =>
      exact ⟨.field, by decide, .field (List.mem_of_getElem? there) told ⟨_, inside⟩⟩
    | marked inside => cases inside
  | method there inside =>
    cases inside with
    | signature told inside => exact namesIn_of_method (List.mem_of_getElem? there) told inside
    | marked inside => cases inside
    | markedParameter _ inside => cases inside

theorem NamesIn.mentionsAt {part : GenericPart} (h : decl.NamesIn name part)
    (kept : part ≠ .thrown) :
    ∃ place, decl.MentionsAt place { target := name, kind := .typeArgument } := by
  cases h with
  | classBound told declared bounds inside =>
    obtain ⟨i, there⟩ := List.getElem?_of_mem declared
    obtain ⟨j, bounds⟩ := List.getElem?_of_mem bounds
    obtain ⟨place, inside⟩ := inside
    exact ⟨_, .signature told (.parameter there (.bound bounds inside))⟩
  | superclass told inside =>
    obtain ⟨place, inside⟩ := inside
    exact ⟨_, .signature told (.superclass inside)⟩
  | interface told there inside =>
    obtain ⟨i, there⟩ := List.getElem?_of_mem there
    obtain ⟨place, inside⟩ := inside
    exact ⟨_, .signature told (.interface there inside)⟩
  | field member told inside =>
    obtain ⟨i, there⟩ := List.getElem?_of_mem member
    obtain ⟨place, inside⟩ := inside
    exact ⟨_, .field there (.signature told inside)⟩
  | methodBound member told declared bounds inside =>
    obtain ⟨i, there⟩ := List.getElem?_of_mem member
    obtain ⟨j, declared⟩ := List.getElem?_of_mem declared
    obtain ⟨k, bounds⟩ := List.getElem?_of_mem bounds
    obtain ⟨place, inside⟩ := inside
    exact ⟨_, .method there (.signature told (.typeParameter declared (.bound bounds inside)))⟩
  | parameter member told among inside =>
    obtain ⟨i, there⟩ := List.getElem?_of_mem member
    obtain ⟨j, among⟩ := List.getElem?_of_mem among
    obtain ⟨place, inside⟩ := inside
    exact ⟨_, .method there (.signature told (.parameter among inside))⟩
  | returnType member told inside =>
    obtain ⟨i, there⟩ := List.getElem?_of_mem member
    obtain ⟨place, inside⟩ := inside
    exact ⟨_, .method there (.signature told (.returnType inside))⟩
  | thrown => exact absurd rfl kept

/-- Another class is listed as a type argument exactly if it is named in a part other than the
exceptions of a method. -/
theorem generics_listed (other : name ≠ decl.name) :
    { target := name, kind := .typeArgument } ∈ decl.references ↔
      ∃ part, part ≠ .thrown ∧ decl.NamesIn name part := by
  rw [mem_references, and_iff_left other, decl.lists_mentions.mem_iff]
  constructor
  · rintro ⟨place, mentioned⟩
    exact namesIn_of_mentionsAt mentioned
  · rintro ⟨part, kept, named⟩
    exact named.mentionsAt kept

/-- Its one method returns a list of `q.B` and throws an exception that is parameterized by
`q.A`. -/
def riskyDecl : ClassDecl where
  name := "p.C"
  superclass := none
  interfaces := []
  access := default
  majorVersion := 61
  minorVersion := 0
  fields := []
  methods := [{
    name := "m"
    access := default
    parameters := []
    returnType := .object "p.List"
    exceptions := ["p.E"]
    signature := some {
      typeParameters := []
      parameters := []
      returnType := .classType "p.List" [.exactly (.classType "q.B" [])]
      throws := [.classType "p.E" [.exactly (.classType "q.A" [])]] }
    annotations := []
    parameterAnnotations := [] }]
  annotations := []
  signature := none
  sourceFile := none
  enclosingClass := none

theorem namesIn_riskyDecl : riskyDecl.NamesIn "q.A" .thrown := by
  have named : TypeSignature.ArgumentsName (.classType "p.E" [.exactly (.classType "q.A" [])])
      "q.A" := ⟨_, .argument (i := 0) rfl (.exactly _) (.name _ _)⟩
  exact .thrown (List.mem_singleton_self _) rfl (List.mem_singleton_self _) named

/-- What is returned is listed. What is thrown is not, so that it is named nowhere else. -/
theorem generics_listed_risky :
    "q.B" ≠ riskyDecl.name ∧ "q.A" ≠ riskyDecl.name ∧
    (∃ part, part ≠ .thrown ∧ riskyDecl.NamesIn "q.B" part) ∧
    riskyDecl.NamesIn "q.A" .thrown ∧
    { target := "q.A", kind := .typeArgument } ∉ riskyDecl.references ∧
    ¬ ∃ part, part ≠ .thrown ∧ riskyDecl.NamesIn "q.A" part := by
  have otherB : "q.B" ≠ riskyDecl.name := by decide
  have otherA : "q.A" ≠ riskyDecl.name := by decide
  have listed : { target := "q.B", kind := .typeArgument } ∈ riskyDecl.references := by decide
  have missing : { target := "q.A", kind := .typeArgument } ∉ riskyDecl.references := by decide
  exact ⟨otherB, otherA, (generics_listed otherB).mp listed, namesIn_riskyDecl, missing,
    fun named => missing ((generics_listed otherA).mpr named)⟩

end ClassDecl

end ClassAtlas
