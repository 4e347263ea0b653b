import ClassAtlas.ClassDecl.References
import ClassAtlas.Proofs.ClassDecl.Places

/-!
# Where a declaration mentions classes

`ClassDecl.MentionsAt` says which class a declaration mentions at a place, and in which role. A
declaration is read from top to bottom: the superclass, the interfaces, the enclosing class, the
signature, the annotations, the fields and the methods; a field or method likewise. The numbers of a
place say which of these parts is meant, and which item of it.

* `lists_mentions`: `ClassDecl.mentions` lists the mentions in the order of their places;
* `references_listed`: the references are the distinct mentions of other classes, in the order of
  first occurrence.
-/

namespace ClassAtlas

open ClassReference

/-! ## Types -/

/-- The class under any array dimensions of a type. -/
inductive JavaType.Names : JavaType → String → Prop
  | object (name : String) : Names (.object name) name
  | array {element : JavaType} {name : String} (dimensions : Nat) (h : element.Names name) :
    Names (.array element dimensions) name

theorem JavaType.className?_eq_some_iff {type : JavaType} {name : String} :
    type.className? = some name ↔ type.Names name := by
  induction type with
  | primitive | void =>
    constructor
    · intro h
      cases h
    · rintro ⟨⟩
  | object other =>
    constructor
    · intro h
      cases h
      exact .object name
    · rintro ⟨⟩
      rfl
  | array element dimensions ih =>
    constructor
    · exact fun h => .array dimensions (ih.mp h)
    · rintro (_ | ⟨_, h⟩)
      exact ih.mpr h

theorem JavaType.lists_className (type : JavaType) :
    Lists (fun place name => place = [] ∧ type.Names name) type.className?.toList :=
  (lists_option type.className?).congr fun place name => by rw [className?_eq_some_iff]

/-! ## Generic types -/

/-- The type that a type argument is, or that bounds it. -/
inductive TypeArgument.Holds : TypeArgument → TypeSignature → Prop
  | upper (bound : TypeSignature) : Holds (.upper bound) bound
  | lower (bound : TypeSignature) : Holds (.lower bound) bound
  | exactly (type : TypeSignature) : Holds (.exactly type) type

/-- A class that a generic type mentions: its own class, or one in its arguments. -/
inductive TypeSignature.MentionsAt : TypeSignature → Place → String → Prop
  | name (name : String) (arguments : List TypeArgument) :
    MentionsAt (.classType name arguments) [0] name
  | argument {name mentioned : String} {arguments : List TypeArgument} {i : Nat}
      {argument : TypeArgument} {type : TypeSignature} {place : Place}
      (there : arguments[i]? = some argument) (holds : argument.Holds type)
      (inside : type.MentionsAt place mentioned) :
    MentionsAt (.classType name arguments) (1 :: i :: place) mentioned
  | array {element : TypeSignature} {place : Place} {mentioned : String}
      (inside : element.MentionsAt place mentioned) : MentionsAt (.array element) place mentioned

/-- A class in the arguments of a generic type. -/
inductive TypeSignature.ArgumentsMentionAt : TypeSignature → Place → String → Prop
  | argument {name mentioned : String} {arguments : List TypeArgument} {i : Nat}
      {argument : TypeArgument} {type : TypeSignature} {place : Place}
      (there : arguments[i]? = some argument) (holds : argument.Holds type)
      (inside : type.MentionsAt place mentioned) :
    ArgumentsMentionAt (.classType name arguments) (i :: place) mentioned
  | array {element : TypeSignature} {place : Place} {mentioned : String}
      (inside : element.ArgumentsMentionAt place mentioned) :
    ArgumentsMentionAt (.array element) place mentioned

namespace TypeSignature

/-- A class that an argument mentions. -/
def InArgument (argument : TypeArgument) (place : Place) (mentioned : String) : Prop :=
  ∃ type, argument.Holds type ∧ type.MentionsAt place mentioned

theorem namesInArguments_eq (arguments : List TypeArgument) :
    namesInArguments arguments = arguments.flatMap argumentNames := by
  induction arguments with
  | nil => rfl
  | cons argument arguments ih => rw [namesInArguments, ih, List.flatMap_cons]

/-- Arguments list what each of them mentions. -/
theorem lists_arguments {arguments : List TypeArgument}
    (h : ∀ argument ∈ arguments, Lists (InArgument argument) (argumentNames argument)) :
    Lists (fun place mentioned => ∃ i argument rest, arguments[i]? = some argument ∧
      place = i :: rest ∧ InArgument argument rest mentioned) (namesInArguments arguments) := by
  rw [namesInArguments_eq]
  exact lists_row h

mutual

theorem lists_classNames : ∀ type : TypeSignature, Lists type.MentionsAt type.classNames
  | .base _ | .void | .typeVariable _ => by
    refine (listsFrom_nil 0).lists.congr fun place name => ?_
    constructor
    · rintro ⟨⟩
    · exact False.elim
  | .array element => by
    refine (lists_classNames element).congr fun place name => ?_
    constructor
    · rintro (_ | _ | ⟨inside⟩)
      exact inside
    · exact .array
  | .classType name arguments => by
    have inside := lists_arguments (lists_argumentNamesOf arguments)
    refine ((lists_option (some name)).above (inside.last 1)).lists.congr fun place mentioned => ?_
    constructor
    · rintro (_ | ⟨there, holds, inside⟩)
      · exact .inl ⟨[], rfl, rfl, rfl⟩
      · exact .inr ⟨_, rfl, _, _, _, there, rfl, _, holds, inside⟩
    · rintro (⟨_, rfl, rfl, ⟨⟩⟩ | ⟨_, rfl, i, argument, rest, there, rfl, type, holds, inside⟩)
      · exact .name name arguments
      · exact .argument there holds inside

theorem lists_argumentNamesOf : ∀ arguments : List TypeArgument,
    ∀ argument ∈ arguments, Lists (InArgument argument) (argumentNames argument)
  | [] => fun _ inside => absurd inside List.not_mem_nil
  | first :: others => by
    have own := lists_argumentNames first
    have further := lists_argumentNamesOf others
    exact List.forall_mem_cons.mpr ⟨own, further⟩

theorem lists_argumentNames : ∀ argument : TypeArgument,
    Lists (InArgument argument) (argumentNames argument)
  | .any => by
    refine (listsFrom_nil 0).lists.congr fun place name => ?_
    constructor
    · rintro ⟨_, ⟨⟩, _⟩
    · exact False.elim
  | .upper bound | .lower bound | .exactly bound => by
    refine (lists_classNames bound).congr fun place name => ?_
    constructor
    · rintro ⟨_, ⟨⟩, inside⟩
      exact inside
    · intro inside
      exact ⟨bound, by constructor, inside⟩

end

theorem lists_argumentClassNames (type : TypeSignature) :
    Lists type.ArgumentsMentionAt type.argumentClassNames := by
  induction type using TypeSignature.argumentClassNames.induct with
  | case1 name arguments =>
    have inside := lists_arguments (lists_argumentNamesOf arguments)
    refine inside.congr fun place mentioned => ?_
    constructor
    · rintro ⟨there, holds, inside⟩
      exact ⟨_, _, _, there, rfl, _, holds, inside⟩
    · rintro ⟨i, argument, rest, there, rfl, type, holds, inside⟩
      exact .argument there holds inside
  | case2 element ih =>
    refine ih.congr fun place name => ?_
    constructor
    · rintro (_ | ⟨inside⟩)
      exact inside
    · exact .array
  | case3 | case4 | case5 =>
    refine (listsFrom_nil 0).lists.congr fun place name => ?_
    constructor
    · rintro ⟨⟩
    · exact False.elim

end TypeSignature

/-- A class that a bound of the parameter mentions. -/
inductive TypeParameter.MentionsAt (parameter : TypeParameter) : Place → String → Prop
  | bound {i : Nat} {bound : TypeSignature} {place : Place} {name : String}
      (there : parameter.bounds[i]? = some bound) (inside : bound.MentionsAt place name) :
    MentionsAt parameter (i :: place) name

theorem TypeParameter.lists_classNames (parameter : TypeParameter) :
    Lists parameter.MentionsAt parameter.classNames := by
  refine (lists_row fun bound _ => bound.lists_classNames).congr fun place name => ?_
  constructor
  · rintro ⟨there, inside⟩
    exact ⟨_, _, _, there, rfl, inside⟩
  · rintro ⟨i, bound, rest, there, rfl, inside⟩
    exact .bound there inside

/-- A class that the generic form of a class mentions: in a bound, or in the arguments of a
supertype. -/
inductive ClassSignature.MentionsAt (signature : ClassSignature) : Place → String → Prop
  | parameter {i : Nat} {parameter : TypeParameter} {place : Place} {name : String}
      (there : signature.typeParameters[i]? = some parameter)
      (inside : parameter.MentionsAt place name) : MentionsAt signature (0 :: i :: place) name
  | superclass {place : Place} {name : String}
      (inside : signature.superclass.ArgumentsMentionAt place name) :
    MentionsAt signature (1 :: place) name
  | interface {i : Nat} {type : TypeSignature} {place : Place} {name : String}
      (there : signature.interfaces[i]? = some type)
      (inside : type.ArgumentsMentionAt place name) : MentionsAt signature (2 :: i :: place) name

/-- A class that the generic form of a method mentions: in a bound, or in the arguments of a
parameter or of the return type. -/
inductive MethodSignature.MentionsAt (signature : MethodSignature) : Place → String → Prop
  | typeParameter {i : Nat} {parameter : TypeParameter} {place : Place} {name : String}
      (there : signature.typeParameters[i]? = some parameter)
      (inside : parameter.MentionsAt place name) : MentionsAt signature (0 :: i :: place) name
  | parameter {i : Nat} {type : TypeSignature} {place : Place} {name : String}
      (there : signature.parameters[i]? = some type)
      (inside : type.ArgumentsMentionAt place name) : MentionsAt signature (1 :: i :: place) name
  | returnType {place : Place} {name : String}
      (inside : signature.returnType.ArgumentsMentionAt place name) :
    MentionsAt signature (2 :: place) name

/-! ## Annotations -/

mutual

/-- A class that a value mentions: the type of an enum constant, a class literal, or a class that a
nested annotation or an item of an array mentions. -/
inductive ElementValue.MentionsAt : ElementValue → Place → String → Prop
  | enum (typeName constant : String) :
    ElementValue.MentionsAt (.enum typeName constant) [] typeName
  | classLiteral {type : JavaType} {name : String} (names : type.Names name) :
    ElementValue.MentionsAt (.classLiteral type) [] name
  | nested {value : Annotation} {place : Place} {name : String}
      (inside : value.MentionsAt place name) : ElementValue.MentionsAt (.nested value) place name
  | array {values : List ElementValue} {i : Nat} {value : ElementValue} {place : Place}
      {name : String} (there : values[i]? = some value) (inside : value.MentionsAt place name) :
    ElementValue.MentionsAt (.array values) (i :: place) name

/-- A class that an annotation mentions: its type, or a class that an element mentions. -/
inductive Annotation.MentionsAt : Annotation → Place → String → Prop
  | type (typeName : String) (visible : Bool) (elements : List AnnotationElement) :
    Annotation.MentionsAt (.mk typeName visible elements) [0] typeName
  | element {typeName name mentioned : String} {visible : Bool}
      {elements : List AnnotationElement} {i : Nat} {value : ElementValue} {place : Place}
      (there : elements[i]? = some (.mk name value)) (inside : value.MentionsAt place mentioned) :
    Annotation.MentionsAt (.mk typeName visible elements) (1 :: i :: place) mentioned

end

theorem namesInValues_eq (values : List ElementValue) :
    namesInValues values = values.flatMap ElementValue.classNames := by
  induction values with
  | nil => rfl
  | cons value values ih => rw [namesInValues, ih, List.flatMap_cons]

theorem namesInElements_eq (elements : List AnnotationElement) :
    namesInElements elements = elements.flatMap AnnotationElement.classNames := by
  induction elements with
  | nil => rfl
  | cons element elements ih => rw [namesInElements, ih, List.flatMap_cons]

mutual

theorem ElementValue.lists_classNames : ∀ value : ElementValue,
    Lists value.MentionsAt value.classNames
  | .boolean _ | .byte _ | .char _ | .short _ | .int _ | .long _ | .float _ | .double _
  | .string _ => by
    refine (listsFrom_nil 0).lists.congr fun place name => ?_
    constructor
    · rintro ⟨⟩
    · exact False.elim
  | .enum typeName constant => by
    refine (lists_option (some typeName)).congr fun place name => ?_
    constructor
    · rintro ⟨⟩
      exact ⟨rfl, rfl⟩
    · rintro ⟨rfl, ⟨⟩⟩
      exact .enum typeName constant
  | .classLiteral type => by
    refine type.lists_className.congr fun place name => ?_
    constructor
    · rintro (_ | ⟨names⟩)
      exact ⟨rfl, names⟩
    · rintro ⟨rfl, names⟩
      exact .classLiteral names
  | .nested value => by
    refine value.lists_classNames.congr fun place name => ?_
    constructor
    · rintro (_ | _ | ⟨inside⟩)
      exact inside
    · exact .nested
  | .array values => by
    rw [ElementValue.classNames, namesInValues_eq]
    refine (lists_row (lists_values values)).congr fun place name => ?_
    constructor
    · rintro (_ | _ | _ | ⟨there, inside⟩)
      exact ⟨_, _, _, there, rfl, inside⟩
    · rintro ⟨i, value, rest, there, rfl, inside⟩
      exact .array there inside

theorem lists_values : ∀ values : List ElementValue,
    ∀ value ∈ values, Lists value.MentionsAt value.classNames
  | [] => fun _ inside => absurd inside List.not_mem_nil
  | first :: others => by
    have own := first.lists_classNames
    have further := lists_values others
    exact List.forall_mem_cons.mpr ⟨own, further⟩

theorem Annotation.lists_classNames : ∀ marked : Annotation,
    Lists marked.MentionsAt marked.classNames
  | .mk typeName visible elements => by
    have inside := lists_row (lists_elements elements)
    rw [ Annotation.classNames, namesInElements_eq]
    refine ((lists_option (some typeName)).above (inside.last 1)).lists.congr fun place name => ?_
    constructor
    · rintro (_ | ⟨there, inside⟩)
      · exact .inl ⟨[], rfl, rfl, rfl⟩
      · exact .inr ⟨_, rfl, _, _, _, there, rfl, inside⟩
    · rintro (⟨_, rfl, rfl, ⟨⟩⟩ | ⟨_, rfl, i, ⟨name, value⟩, rest, there, rfl, inside⟩)
      · exact .type typeName visible elements
      · exact .element there inside

theorem lists_elements : ∀ elements : List AnnotationElement,
    ∀ element ∈ elements, Lists element.value.MentionsAt element.classNames
  | [] => fun _ inside => absurd inside List.not_mem_nil
  | .mk name value :: others => by
    have own := value.lists_classNames
    have further := lists_elements others
    exact List.forall_mem_cons.mpr ⟨own, further⟩

end

/-! ## Declarations -/

theorem Lists.ofKind {At : Place → String → Prop} {names : List String} (h : Lists At names)
    (kind : DependencyKind) :
    Lists (fun place reference => ∃ name, At place name ∧ { target := name, kind } = reference)
      (ofKind kind names) :=
  h.map fun target => ClassReference.mk target kind

/-- A class that one of the annotations mentions. -/
inductive AnnotationsMentionAt (annotations : List Annotation) : Place → ClassReference → Prop
  | item {i : Nat} {marked : Annotation} {place : Place} {name : String}
      (there : annotations[i]? = some marked) (inside : marked.MentionsAt place name) :
    AnnotationsMentionAt annotations (i :: place) { target := name, kind := .annotationType }

theorem lists_ofAnnotations (annotations : List Annotation) :
    Lists (AnnotationsMentionAt annotations) (ofAnnotations annotations) := by
  have names := lists_row fun marked (_ : marked ∈ annotations) => marked.lists_classNames
  refine (names.ofKind .annotationType).congr fun place reference => ?_
  constructor
  · rintro ⟨there, inside⟩
    exact ⟨_, ⟨_, _, _, there, rfl, inside⟩, rfl⟩
  · rintro ⟨name, ⟨i, marked, rest, there, rfl, inside⟩, rfl⟩
    exact .item there inside

/-- A class that a field mentions. -/
inductive FieldDecl.MentionsAt (field : FieldDecl) : Place → ClassReference → Prop
  | type {name : String} (names : field.type.Names name) :
    MentionsAt field [0] { target := name, kind := .fieldType }
  | signature {type : TypeSignature} {place : Place} {name : String}
      (told : field.signature = some type) (inside : type.ArgumentsMentionAt place name) :
    MentionsAt field (1 :: place) { target := name, kind := .typeArgument }
  | marked {place : Place} {reference : ClassReference}
      (inside : AnnotationsMentionAt field.annotations place reference) :
    MentionsAt field (2 :: place) reference

/-- A class that a method mentions. -/
inductive MethodDecl.MentionsAt (method : MethodDecl) : Place → ClassReference → Prop
  | parameter {i : Nat} {type : JavaType} {name : String}
      (there : method.parameters[i]? = some type) (names : type.Names name) :
    MentionsAt method [0, i] { target := name, kind := .parameterType }
  | returnType {name : String} (names : method.returnType.Names name) :
    MentionsAt method [1] { target := name, kind := .returnType }
  | exception {i : Nat} {name : String} (there : method.exceptions[i]? = some name) :
    MentionsAt method [2, i] { target := name, kind := .throwsType }
  | signature {signature : MethodSignature} {place : Place} {name : String}
      (told : method.signature = some signature) (inside : signature.MentionsAt place name) :
    MentionsAt method (3 :: place) { target := name, kind := .typeArgument }
  | marked {place : Place} {reference : ClassReference}
      (inside : AnnotationsMentionAt method.annotations place reference) :
    MentionsAt method (4 :: place) reference
  | markedParameter {i : Nat} {annotations : List Annotation} {place : Place}
      {reference : ClassReference} (there : method.parameterAnnotations[i]? = some annotations)
      (inside : AnnotationsMentionAt annotations place reference) :
    MentionsAt method (5 :: i :: place) reference

/-- A class that a declaration mentions. -/
inductive ClassDecl.MentionsAt (decl : ClassDecl) : Place → ClassReference → Prop
  | superclass {name : String} (told : decl.superclass = some name) :
    MentionsAt decl [0] { target := name, kind := .extending }
  | interface {i : Nat} {name : String} (there : decl.interfaces[i]? = some name) :
    MentionsAt decl [1, i] { target := name, kind := .implementing }
  | enclosingClass {name : String} (told : decl.enclosingClass = some name) :
    MentionsAt decl [2] { target := name, kind := .enclosingClass }
  | signature {signature : ClassSignature} {place : Place} {name : String}
      (told : decl.signature = some signature) (inside : signature.MentionsAt place name) :
    MentionsAt decl (3 :: place) { target := name, kind := .typeArgument }
  | marked {place : Place} {reference : ClassReference}
      (inside : AnnotationsMentionAt decl.annotations place reference) :
    MentionsAt decl (4 :: place) reference
  | field {i : Nat} {field : FieldDecl} {place : Place} {reference : ClassReference}
      (there : decl.fields[i]? = some field) (inside : field.MentionsAt place reference) :
    MentionsAt decl (5 :: i :: place) reference
  | method {i : Nat} {method : MethodDecl} {place : Place} {reference : ClassReference}
      (there : decl.methods[i]? = some method) (inside : method.MentionsAt place reference) :
    MentionsAt decl (6 :: i :: place) reference

theorem ClassSignature.lists_mentions (signature : ClassSignature) :
    Lists (fun place reference => ∃ name, signature.MentionsAt place name ∧
      { target := name, kind := .typeArgument } = reference) signature.mentions := by
  have parameters := lists_row
    fun parameter (_ : parameter ∈ signature.typeParameters) => parameter.lists_classNames
  have superclass := signature.superclass.lists_argumentClassNames
  have interfaces := lists_row
    fun type (_ : type ∈ signature.interfaces) => type.lists_argumentClassNames
  have parts := (parameters.above (superclass.above (interfaces.last 2))).lists
  rw [← List.append_assoc] at parts
  refine Lists.ofKind (parts.congr fun place name => ?_) .typeArgument
  constructor
  · rintro (⟨there, inside⟩ | ⟨inside⟩ | ⟨there, inside⟩)
    · exact .inl ⟨_, rfl, _, _, _, there, rfl, inside⟩
    · exact .inr (.inl ⟨_, rfl, inside⟩)
    · exact .inr (.inr ⟨_, rfl, _, _, _, there, rfl, inside⟩)
  · rintro (⟨_, rfl, i, parameter, rest, there, rfl, inside⟩ | ⟨rest, rfl, inside⟩ |
      ⟨_, rfl, i, type, rest, there, rfl, inside⟩)
    · exact .parameter there inside
    · exact .superclass inside
    · exact .interface there inside

theorem MethodSignature.lists_mentions (signature : MethodSignature) :
    Lists (fun place reference => ∃ name, signature.MentionsAt place name ∧
      { target := name, kind := .typeArgument } = reference) signature.mentions := by
  have typeParameters := lists_row
    fun parameter (_ : parameter ∈ signature.typeParameters) => parameter.lists_classNames
  have parameters := lists_row
    fun type (_ : type ∈ signature.parameters) => type.lists_argumentClassNames
  have returnType := signature.returnType.lists_argumentClassNames
  have parts := (typeParameters.above (parameters.above (returnType.last 2))).lists
  rw [← List.append_assoc] at parts
  refine Lists.ofKind (parts.congr fun place name => ?_) .typeArgument
  constructor
  · rintro (⟨there, inside⟩ | ⟨there, inside⟩ | ⟨inside⟩)
    · exact .inl ⟨_, rfl, _, _, _, there, rfl, inside⟩
    · exact .inr (.inl ⟨_, rfl, _, _, _, there, rfl, inside⟩)
    · exact .inr (.inr ⟨_, rfl, inside⟩)
  · rintro (⟨_, rfl, i, parameter, rest, there, rfl, inside⟩ |
      ⟨_, rfl, i, type, rest, there, rfl, inside⟩ | ⟨rest, rfl, inside⟩)
    · exact .typeParameter there inside
    · exact .parameter there inside
    · exact .returnType inside

theorem FieldDecl.lists_mentions (field : FieldDecl) : Lists field.MentionsAt field.mentions := by
  have type := field.type.lists_className.ofKind .fieldType
  have signature := (lists_part fun type (_ : field.signature = some type) =>
    type.lists_argumentClassNames).ofKind .typeArgument
  have annotations := lists_ofAnnotations field.annotations
  have parts := (type.above (signature.above (annotations.last 2))).lists
  rw [← List.append_assoc] at parts
  refine parts.congr fun place reference => ?_
  constructor
  · rintro (⟨names⟩ | ⟨told, inside⟩ | ⟨inside⟩)
    · exact .inl ⟨_, rfl, _, ⟨rfl, names⟩, rfl⟩
    · exact .inr (.inl ⟨_, rfl, _, ⟨_, told, inside⟩, rfl⟩)
    · exact .inr (.inr ⟨_, rfl, inside⟩)
  · rintro (⟨_, rfl, name, ⟨rfl, names⟩, rfl⟩ | ⟨rest, rfl, name, ⟨type, told, inside⟩, rfl⟩ |
      ⟨rest, rfl, inside⟩)
    · exact .type names
    · exact .signature told inside
    · exact .marked inside

theorem MethodDecl.lists_mentions (method : MethodDecl) :
    Lists method.MentionsAt method.mentions := by
  have parameters := (lists_row fun type (_ : type ∈ method.parameters) =>
    type.lists_className).ofKind .parameterType
  have returnType := method.returnType.lists_className.ofKind .returnType
  have exceptions := (lists_items method.exceptions).ofKind .throwsType
  have signature := lists_part fun signature (_ : method.signature = some signature) =>
    signature.lists_mentions
  have annotations := lists_ofAnnotations method.annotations
  have ofParameters := lists_row fun annotations (_ : annotations ∈ method.parameterAnnotations) =>
    lists_ofAnnotations annotations
  have parts := (parameters.above (returnType.above (exceptions.above (signature.above
    (annotations.above (ofParameters.last 5)))))).lists
  simp only [← List.append_assoc] at parts
  refine parts.congr fun place reference => ?_
  constructor
  · rintro (⟨there, names⟩ | ⟨names⟩ | ⟨there⟩ | ⟨told, inside⟩ | ⟨inside⟩ | ⟨there, inside⟩)
    · exact .inl ⟨_, rfl, _, ⟨_, _, _, there, rfl, rfl, names⟩, rfl⟩
    · exact .inr (.inl ⟨_, rfl, _, ⟨rfl, names⟩, rfl⟩)
    · exact .inr (.inr (.inl ⟨_, rfl, _, ⟨_, there, rfl⟩, rfl⟩))
    · exact .inr (.inr (.inr (.inl ⟨_, rfl, _, told, _, inside, rfl⟩)))
    · exact .inr (.inr (.inr (.inr (.inl ⟨_, rfl, inside⟩))))
    · exact .inr (.inr (.inr (.inr (.inr ⟨_, rfl, _, _, _, there, rfl, inside⟩))))
  · rintro (⟨_, rfl, name, ⟨i, type, _, there, rfl, rfl, names⟩, rfl⟩ |
      ⟨_, rfl, name, ⟨rfl, names⟩, rfl⟩ | ⟨_, rfl, name, ⟨i, there, rfl⟩, rfl⟩ |
      ⟨rest, rfl, signature, told, name, inside, rfl⟩ | ⟨rest, rfl, inside⟩ |
      ⟨_, rfl, i, annotations, rest, there, rfl, inside⟩)
    · exact .parameter there names
    · exact .returnType names
    · exact .exception there
    · exact .signature told inside
    · exact .marked inside
    · exact .markedParameter there inside

namespace ClassDecl

theorem lists_mentions (decl : ClassDecl) : Lists decl.MentionsAt decl.mentions := by
  have superclass := (lists_option decl.superclass).ofKind .extending
  have interfaces := (lists_items decl.interfaces).ofKind .implementing
  have enclosingClass := (lists_option decl.enclosingClass).ofKind .enclosingClass
  have signature := lists_part fun signature (_ : decl.signature = some signature) =>
    signature.lists_mentions
  have annotations := lists_ofAnnotations decl.annotations
  have fields := lists_row fun field (_ : field ∈ decl.fields) => field.lists_mentions
  have methods := lists_row fun method (_ : method ∈ decl.methods) => method.lists_mentions
  have parts := (superclass.above (interfaces.above (enclosingClass.above (signature.above
    (annotations.above (fields.above (methods.last 6))))))).lists
  simp only [← List.append_assoc] at parts
  refine parts.congr fun place reference => ?_
  constructor
  · rintro (⟨told⟩ | ⟨there⟩ | ⟨told⟩ | ⟨told, inside⟩ | ⟨inside⟩ | ⟨there, inside⟩ |
      ⟨there, inside⟩)
    · exact .inl ⟨_, rfl, _, ⟨rfl, told⟩, rfl⟩
    · exact .inr (.inl ⟨_, rfl, _, ⟨_, there, rfl⟩, rfl⟩)
    · exact .inr (.inr (.inl ⟨_, rfl, _, ⟨rfl, told⟩, rfl⟩))
    · exact .inr (.inr (.inr (.inl ⟨_, rfl, _, told, _, inside, rfl⟩)))
    · exact .inr (.inr (.inr (.inr (.inl ⟨_, rfl, inside⟩))))
    · exact .inr (.inr (.inr (.inr (.inr (.inl ⟨_, rfl, _, _, _, there, rfl, inside⟩)))))
    · exact .inr (.inr (.inr (.inr (.inr (.inr ⟨_, rfl, _, _, _, there, rfl, inside⟩)))))
  · rintro (⟨_, rfl, name, ⟨rfl, told⟩, rfl⟩ | ⟨_, rfl, name, ⟨i, there, rfl⟩, rfl⟩ |
      ⟨_, rfl, name, ⟨rfl, told⟩, rfl⟩ | ⟨rest, rfl, signature, told, name, inside, rfl⟩ |
      ⟨rest, rfl, inside⟩ | ⟨_, rfl, i, field, rest, there, rfl, inside⟩ |
      ⟨_, rfl, i, method, rest, there, rfl, inside⟩)
    · exact .superclass told
    · exact .interface there
    · exact .enclosingClass told
    · exact .signature told inside
    · exact .marked inside
    · exact .field there inside
    · exact .method there inside

/-! ## References -/

theorem mem_references {decl : ClassDecl} {reference : ClassReference} :
    reference ∈ decl.references ↔
      reference ∈ decl.mentions ∧ reference.target ≠ decl.name := by
  rw [references, List.mem_eraseDups, List.mem_filter, decide_eq_true_iff]

/-- The distinct mentions of other classes, in the order in which the declaration first has
them. -/
structure ListsReferences (decl : ClassDecl) (references : List ClassReference) : Prop where
  /-- No reference is listed twice. -/
  once : references.Nodup
  /-- No reference is to the class itself. -/
  elsewhere : ∀ reference ∈ references, reference.target ≠ decl.name
  /-- Other classes are listed exactly in the roles in which they are mentioned. -/
  complete : ∀ reference, reference.target ≠ decl.name →
    (reference ∈ references ↔ ∃ place, decl.MentionsAt place reference)
  /-- Of two references, the one that stands first is mentioned before the other ever is. -/
  inOrder : references.Pairwise (StandsBefore decl.MentionsAt)

theorem references_listed (decl : ClassDecl) : decl.ListsReferences decl.references := by
  have others := decl.lists_mentions.filter (·.target ≠ decl.name)
  have order := others.pairwise_eraseDups
  have inside : ∀ reference, reference ∈ decl.references ↔
      (∃ place, decl.MentionsAt place reference) ∧ reference.target ≠ decl.name := by
    intro reference
    rw [mem_references, decl.lists_mentions.mem_iff]
  constructor
  · refine List.Pairwise.imp ?_ order
    rintro reference _ before rfl
    exact not_standsBefore_self reference before
  · exact fun reference listed => ((inside reference).mp listed).2
  · intro reference other
    rw [inside, and_iff_left other]
  · refine order.imp_of_mem fun {reference other} _ listed before => ?_
    obtain ⟨place, ⟨mentioned, _⟩, earliest⟩ := before
    have elsewhere := ((inside other).mp listed).2
    exact ⟨place, mentioned, fun place' there =>
      earliest place' ⟨there, decide_eq_true elsewhere⟩⟩

end ClassDecl

end ClassAtlas
