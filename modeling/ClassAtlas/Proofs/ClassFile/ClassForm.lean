import ClassAtlas.Proofs.ClassFile.Form

/-!
# The form of members and classes

Attributes, fields, methods and whole classes, built from constants and annotations. An attribute
is its content and an index that designates its name; of unknown attributes only the body is kept.
The declaration of a form is told from all its attributes at once: the last of those that set one
property, and those that add up in file order.
-/

namespace ClassAtlas.ClassFile

open Reader (word2 word4)

/-! ## Tables of attributes -/

/-- What attributes of one table can hold. -/
class AttributeContent (κ : Type) where
  name : κ → String
  body : κ → Bytes
  Fits : κ → Prop

section Tables

variable (constants : List ConstantForm) (κ : Type) [AttributeContent κ]

/-- Content under its name. -/
structure AttributeForm where
  content : κ
  nameIndex : UInt16
  named : NamesText constants nameIndex (AttributeContent.name content)

variable {constants κ}

def AttributeForm.bytes (form : AttributeForm constants κ) : Bytes :=
  let body := AttributeContent.body form.content
  word2 form.nameIndex.toNat ++ (word4 body.length ++ body)

def AttributeForm.Fits (form : AttributeForm constants κ) : Prop :=
  (AttributeContent.body form.content).length < 0x100000000 ∧
    AttributeContent.Fits form.content

def tableBytes (forms : List (AttributeForm constants κ)) : Bytes :=
  word2 forms.length ++ forms.flatMap AttributeForm.bytes

def TableFits (forms : List (AttributeForm constants κ)) : Prop :=
  forms.length < 0x10000 ∧ ∀ form ∈ forms, form.Fits

/-- What the attributes of a table hold, in file order. -/
def contents (forms : List (AttributeForm constants κ)) : List κ :=
  forms.map AttributeForm.content

end Tables

def annotationsName (visible : Bool) : String :=
  if visible then "RuntimeVisibleAnnotations" else "RuntimeInvisibleAnnotations"

def parameterAnnotationsName (visible : Bool) : String :=
  if visible then "RuntimeVisibleParameterAnnotations" else "RuntimeInvisibleParameterAnnotations"

/-! ## Fields -/

/-- The names that tell something of a field. -/
def fieldNames : List String :=
  ["Signature", "ConstantValue", "RuntimeVisibleAnnotations", "RuntimeInvisibleAnnotations"]

inductive FieldContent (constants : List ConstantForm) (type : JavaType) where
  | signature (text : Operand (NamesParsed constants TypeSignature.parse))
  | initial (constant : Operand (NamesInitial constants type))
  | annotations (visible : Bool) (forms : List (AnnotationForm constants))
  | unknown (name : String) (unknown : name ∉ fieldNames) (body : Bytes)

namespace FieldContent

variable {constants : List ConstantForm} {type : JavaType}

instance : AttributeContent (FieldContent constants type) where
  name
    | signature _ => "Signature"
    | initial _ => "ConstantValue"
    | annotations visible _ => annotationsName visible
    | unknown name _ _ => name
  body
    | signature text => text.bytes
    | initial constant => constant.bytes
    | annotations _ forms => annotationBytes forms
    | unknown _ _ body => body
  Fits
    | annotations _ forms => AnnotationsFit forms
    | _ => True

def signature? : FieldContent constants type → Option TypeSignature
  | signature text => some text.value
  | _ => none

def initial? : FieldContent constants type → Option ElementValue
  | initial constant => some constant.value
  | _ => none

def annotationList : FieldContent constants type → List Annotation
  | annotations visible forms => forms.map (AnnotationForm.annotation visible)
  | _ => []

end FieldContent

structure FieldForm (constants : List ConstantForm) where
  access : UInt16
  name : Operand (NamesText constants)
  type : Operand (NamesParsed constants JavaType.parse)
  attributes : List (AttributeForm constants (FieldContent constants type.value))

namespace FieldForm

variable {constants : List ConstantForm}

def bytes (form : FieldForm constants) : Bytes :=
  word2 form.access.toNat ++ (form.name.bytes ++ (form.type.bytes ++ tableBytes form.attributes))

def Fits (form : FieldForm constants) : Prop := TableFits form.attributes

/-- The field, as some of its attributes tell. -/
def declOf (form : FieldForm constants)
    (attributes : List (AttributeForm constants (FieldContent constants form.type.value))) :
    FieldDecl :=
  { name := form.name.value
    access := ⟨form.access⟩
    type := form.type.value
    signature := ((contents attributes).filterMap FieldContent.signature?).getLast?
    constant := ((contents attributes).filterMap FieldContent.initial?).getLast?
    annotations := (contents attributes).flatMap FieldContent.annotationList }

def decl (form : FieldForm constants) : FieldDecl := form.declOf form.attributes

end FieldForm

/-! ## Methods -/

/-- The names that tell something of a method. -/
def methodNames : List String :=
  ["Signature", "Exceptions", "RuntimeVisibleAnnotations", "RuntimeInvisibleAnnotations",
    "RuntimeVisibleParameterAnnotations", "RuntimeInvisibleParameterAnnotations"]

inductive MethodContent (constants : List ConstantForm) where
  | signature (text : Operand (NamesParsed constants MethodSignature.parse))
  | exceptions (classes : List (Operand (NamesClass constants)))
  | annotations (visible : Bool) (forms : List (AnnotationForm constants))
  | parameterAnnotations (visible : Bool) (slots : List (List (AnnotationForm constants)))
  | unknown (name : String) (unknown : name ∉ methodNames) (body : Bytes)

namespace MethodContent

variable {constants : List ConstantForm}

instance : AttributeContent (MethodContent constants) where
  name
    | signature _ => "Signature"
    | exceptions _ => "Exceptions"
    | annotations visible _ => annotationsName visible
    | parameterAnnotations visible _ => parameterAnnotationsName visible
    | unknown name _ _ => name
  body
    | signature text => text.bytes
    | exceptions classes => word2 classes.length ++ classes.flatMap Operand.bytes
    | annotations _ forms => annotationBytes forms
    | parameterAnnotations _ slots => Reader.word1 slots.length ++ slots.flatMap annotationBytes
    | unknown _ _ body => body
  Fits
    | exceptions classes => classes.length < 0x10000
    | annotations _ forms => AnnotationsFit forms
    | parameterAnnotations _ slots => slots.length < 0x100 ∧ ∀ forms ∈ slots, AnnotationsFit forms
    | _ => True

def signature? : MethodContent constants → Option MethodSignature
  | signature text => some text.value
  | _ => none

def exceptionNames : MethodContent constants → List String
  | exceptions classes => classes.map Operand.value
  | _ => []

def annotationList : MethodContent constants → List Annotation
  | annotations visible forms => forms.map (AnnotationForm.annotation visible)
  | _ => []

def slots? : MethodContent constants → Option (List (List Annotation))
  | parameterAnnotations visible slots =>
    some (slots.map fun forms => forms.map (AnnotationForm.annotation visible))
  | _ => none

end MethodContent

/-- Tables of slots side by side: each slot is what the tables have there, in their order. There
are as many slots as the longest table has. -/
def joinSlots {α : Type} (tables : List (List (List α))) : List (List α) :=
  (List.range ((tables.map List.length).foldl max 0)).map fun slot =>
    tables.flatMap fun table => table.getD slot []

structure MethodForm (constants : List ConstantForm) where
  access : UInt16
  name : Operand (NamesText constants)
  type : Operand (NamesParsed constants MethodType.parse)
  attributes : List (AttributeForm constants (MethodContent constants))

namespace MethodForm

variable {constants : List ConstantForm}

def bytes (form : MethodForm constants) : Bytes :=
  word2 form.access.toNat ++ (form.name.bytes ++ (form.type.bytes ++ tableBytes form.attributes))

def Fits (form : MethodForm constants) : Prop := TableFits form.attributes

/-- The method, as some of its attributes tell. -/
def declOf (form : MethodForm constants)
    (attributes : List (AttributeForm constants (MethodContent constants))) : MethodDecl :=
  { name := form.name.value
    access := ⟨form.access⟩
    parameters := form.type.value.parameters
    returnType := form.type.value.returnType
    exceptions := (contents attributes).flatMap MethodContent.exceptionNames
    signature := ((contents attributes).filterMap MethodContent.signature?).getLast?
    annotations := (contents attributes).flatMap MethodContent.annotationList
    parameterAnnotations := joinSlots ((contents attributes).filterMap MethodContent.slots?) }

def decl (form : MethodForm constants) : MethodDecl := form.declOf form.attributes

end MethodForm

/-! ## Classes -/

/-- The names that tell something of a class. -/
def classNames : List String :=
  ["Signature", "SourceFile", "InnerClasses", "EnclosingMethod", "RuntimeVisibleAnnotations",
    "RuntimeInvisibleAnnotations"]

/-- An entry of the table of inner classes. Nobody looks at the name it gives. -/
structure InnerForm (constants : List ConstantForm) where
  inner : Operand (NamesClass constants)
  /-- The declaring class. A local or anonymous class has none. -/
  outer : Option (Operand (NamesClass constants))
  innerName : UInt16
  flags : UInt16

/-- An operand that may be missing: index zero, which designates nothing. -/
def optionalIndex {α : Type} {Designates : UInt16 → α → Prop}
    (operand : Option (Operand Designates)) : UInt16 :=
  (operand.map Operand.index).getD 0

def InnerForm.bytes {constants : List ConstantForm} (form : InnerForm constants) : Bytes :=
  form.inner.bytes ++ (word2 (optionalIndex form.outer).toNat ++
    (word2 form.innerName.toNat ++ word2 form.flags.toNat))

inductive ClassContent (constants : List ConstantForm) where
  | signature (text : Operand (NamesParsed constants ClassSignature.parse))
  | sourceFile (text : Operand (NamesText constants))
  | innerClasses (entries : List (InnerForm constants))
  /-- Nobody looks at the method. -/
  | enclosingMethod (enclosing : Operand (NamesClass constants)) (method : UInt16)
  | annotations (visible : Bool) (forms : List (AnnotationForm constants))
  | unknown (name : String) (unknown : name ∉ classNames) (body : Bytes)

namespace ClassContent

variable {constants : List ConstantForm}

instance : AttributeContent (ClassContent constants) where
  name
    | signature _ => "Signature"
    | sourceFile _ => "SourceFile"
    | innerClasses _ => "InnerClasses"
    | enclosingMethod _ _ => "EnclosingMethod"
    | annotations visible _ => annotationsName visible
    | unknown name _ _ => name
  body
    | signature text => text.bytes
    | sourceFile text => text.bytes
    | innerClasses entries => word2 entries.length ++ entries.flatMap InnerForm.bytes
    | enclosingMethod enclosing method => enclosing.bytes ++ word2 method.toNat
    | annotations _ forms => annotationBytes forms
    | unknown _ _ body => body
  Fits
    | innerClasses entries => entries.length < 0x10000
    | annotations _ forms => AnnotationsFit forms
    | _ => True

def signature? : ClassContent constants → Option ClassSignature
  | signature text => some text.value
  | _ => none

def sourceFile? : ClassContent constants → Option String
  | sourceFile text => some text.value
  | _ => none

def annotationList : ClassContent constants → List Annotation
  | annotations visible forms => forms.map (AnnotationForm.annotation visible)
  | _ => []

/-- The entries about the class with this name. -/
def ownEntries (name : String) : ClassContent constants → List (InnerForm constants)
  | innerClasses entries => entries.filter (·.inner.value = name)
  | _ => []

/-- The classes that are said to enclose the class with this name. -/
def enclosers (name : String) : ClassContent constants → List String
  | innerClasses entries =>
    (entries.filter (·.inner.value = name)).filterMap fun entry => entry.outer.map Operand.value
  | enclosingMethod enclosing _ => [enclosing.value]
  | _ => []

end ClassContent

structure ClassForm where
  minorVersion : UInt16
  majorVersion : UInt16
  constants : List ConstantForm
  access : UInt16
  name : Operand (NamesClass constants)
  /-- Only `java.lang.Object` has none. -/
  superclass : Option (Operand (NamesClass constants))
  interfaces : List (Operand (NamesClass constants))
  fields : List (FieldForm constants)
  methods : List (MethodForm constants)
  attributes : List (AttributeForm constants (ClassContent constants))

namespace ClassForm

def bytes (form : ClassForm) : Bytes :=
  word4 0xCAFEBABE ++ (word2 form.minorVersion.toNat ++ (word2 form.majorVersion.toNat ++
    (poolBytes form.constants ++ (word2 form.access.toNat ++ (form.name.bytes ++
      (word2 (optionalIndex form.superclass).toNat ++
        ((word2 form.interfaces.length ++ form.interfaces.flatMap Operand.bytes) ++
          ((word2 form.fields.length ++ form.fields.flatMap FieldForm.bytes) ++
            ((word2 form.methods.length ++ form.methods.flatMap MethodForm.bytes) ++
              tableBytes form.attributes)))))))))

/-- The version is supported, and every count and length fits its word. -/
structure Fits (form : ClassForm) : Prop where
  version : 45 ≤ form.majorVersion.toNat ∧ form.majorVersion.toNat ≤ 69
  constants : PoolFits form.constants
  interfaces : form.interfaces.length < 0x10000
  fields : form.fields.length < 0x10000
  eachField : ∀ field ∈ form.fields, field.Fits
  methods : form.methods.length < 0x10000
  eachMethod : ∀ method ∈ form.methods, method.Fits
  attributes : TableFits form.attributes

/-- The class, as some of its attributes tell. An entry about the class itself replaces the
modifiers. -/
def declOf (form : ClassForm)
    (attributes : List (AttributeForm form.constants (ClassContent form.constants))) : ClassDecl :=
  let name := form.name.value
  { name
    superclass := form.superclass.map Operand.value
    interfaces := form.interfaces.map Operand.value
    access := ⟨((((contents attributes).flatMap (ClassContent.ownEntries name)).map
      InnerForm.flags).getLast?).getD form.access⟩
    majorVersion := form.majorVersion
    minorVersion := form.minorVersion
    fields := form.fields.map FieldForm.decl
    methods := form.methods.map MethodForm.decl
    annotations := (contents attributes).flatMap ClassContent.annotationList
    signature := ((contents attributes).filterMap ClassContent.signature?).getLast?
    sourceFile := ((contents attributes).filterMap ClassContent.sourceFile?).getLast?
    enclosingClass := ((contents attributes).flatMap (ClassContent.enclosers name)).getLast? }

def decl (form : ClassForm) : ClassDecl := form.declOf form.attributes

end ClassForm

end ClassAtlas.ClassFile
