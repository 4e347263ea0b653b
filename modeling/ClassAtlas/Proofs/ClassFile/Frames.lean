import ClassAtlas.Proofs.ClassFile.ClassForm
import ClassAtlas.Proofs.ClassFile.Prefixes
import ClassAtlas.Proofs.ClassFile.Yields

/-!
# The frames of a class file

A class file as far as its attribute tables go: every attribute is an index and a body, whatever the
body holds. Unlike a class form, such a file need not be well-formed in any other respect.

* `ClassFrame` is a file in frames, with its layout and what it tells;
* `TableHole` is a file without one of its attribute tables, and `fill` puts a table there;
* `Edit` is a change of a table that no reader of it should notice.
-/

namespace ClassAtlas.ClassFile

open Reader

/-! ## Attributes -/

/-- An attribute: the index of its name, and a body whose length fits its word. -/
structure AttributeFrame where
  nameIndex : UInt16
  body : Bytes
  fits : body.length < 0x100000000

namespace AttributeFrame

def bytes (frame : AttributeFrame) : Bytes :=
  word2 frame.nameIndex.toNat ++ (word4 frame.body.length ++ frame.body)

/-- The declaration, once the attribute is read from its body alone. -/
def told {δ : Type} (pool : ConstantPool) (revise : String → δ → Reader δ) (decl : δ)
    (frame : AttributeFrame) : Except ClassFileError δ := do
  let name ← pool.text frame.nameIndex
  ((revise name decl).run frame.body).map Prod.fst

end AttributeFrame

/-- The declaration, once the attributes of a table are read one by one. -/
def tableTold {δ : Type} (pool : ConstantPool) (revise : String → δ → Reader δ) (decl : δ)
    (table : List AttributeFrame) : Except ClassFileError δ :=
  table.foldlM (AttributeFrame.told pool revise) decl

/-- The name is a text that none of the names in the list is. -/
def Unrecognised (pool : ConstantPool) (names : List String) (nameIndex : UInt16) : Prop :=
  ∃ name, pool.text nameIndex = .ok name ∧ name ∉ names

/-- Changes of a table that make no difference to a reader that knows these names. -/
inductive Edit (pool : ConstantPool) (names : List String) :
    List AttributeFrame → List AttributeFrame → Prop
  /-- An attribute that the reader does not know is inserted somewhere. -/
  | insert (front back : List AttributeFrame) (frame : AttributeFrame)
      (unrecognised : Unrecognised pool names frame.nameIndex) :
      Edit pool names (front ++ back) (front ++ frame :: back)
  /-- An attribute that the reader does not know is given any other body. -/
  | replace (front back : List AttributeFrame) (frame : AttributeFrame) (body : Bytes)
      (fits : body.length < 0x100000000)
      (unrecognised : Unrecognised pool names frame.nameIndex) :
      Edit pool names (front ++ frame :: back) (front ++ { frame with body, fits } :: back)
  /-- The body of any attribute goes on behind what it held. -/
  | extend (front back : List AttributeFrame) (frame : AttributeFrame) (more : Bytes)
      (fits : (frame.body ++ more).length < 0x100000000) :
      Edit pool names (front ++ frame :: back)
        (front ++ { frame with body := frame.body ++ more, fits } :: back)

/-- More bytes behind the body would change what is read, or what is left: the reading of the
content does not stop at the end of the body. -/
def Overruns {α : Type} (content : Reader α) (body : Bytes) : Prop :=
  ∃ more, content (body ++ more) ≠ (content body).map fun p => (p.1, p.2 ++ more)

/-! ## Members and files -/

/-- What stands in front of the attributes of a field or method. -/
structure MemberHead where
  access : UInt16
  nameIndex : UInt16
  descriptorIndex : UInt16

namespace MemberHead

def bytes (member : MemberHead) : Bytes :=
  word2 member.access.toNat ++
    (word2 member.nameIndex.toNat ++ word2 member.descriptorIndex.toNat)

/-- The member, before any of its attributes is read. -/
def told {τ δ : Type} (pool : ConstantPool) (parse : String → Except ClassFileError τ)
    (bare : UInt16 → String → τ → δ) (member : MemberHead) : Except ClassFileError δ := do
  let name ← pool.text member.nameIndex
  let descriptor ← pool.text member.descriptorIndex
  let type ← parse descriptor
  return bare member.access name type

end MemberHead

/-- A field or a method. -/
structure MemberFrame where
  head : MemberHead
  attributes : List AttributeFrame

namespace MemberFrame

def bytes (member : MemberFrame) : Bytes :=
  member.head.bytes ++ rowBytes AttributeFrame.bytes member.attributes

def told {τ δ : Type} (pool : ConstantPool) (parse : String → Except ClassFileError τ)
    (bare : UInt16 → String → τ → δ) (revise : String → δ → Reader δ) (member : MemberFrame) :
    Except ClassFileError δ := do
  tableTold pool revise (← member.head.told pool parse bare) member.attributes

end MemberFrame

/-- A field without attributes. -/
def bareField (access : UInt16) (name : String) (type : JavaType) : FieldDecl :=
  { name, access := ⟨access⟩, type, signature := none, constant := none, annotations := [] }

/-- A method without attributes. -/
def bareMethod (access : UInt16) (name : String) (type : MethodType) : MethodDecl :=
  { name, access := ⟨access⟩, parameters := type.parameters, returnType := type.returnType,
    exceptions := [], signature := none, annotations := [], parameterAnnotations := [] }

def MemberFrame.field (pool : ConstantPool) : MemberFrame → Except ClassFileError FieldDecl :=
  told pool JavaType.parse bareField (reviseField pool)

def MemberFrame.method (pool : ConstantPool) : MemberFrame → Except ClassFileError MethodDecl :=
  told pool MethodType.parse bareMethod (reviseMethod pool)

/-- The bytes in front of the fields, and what they are read as. -/
structure HeadFrame where
  bytes : Bytes
  head : ClassHead
  reads : Reads readHead bytes head

structure ClassFrame where
  head : HeadFrame
  fields : List MemberFrame
  methods : List MemberFrame
  attributes : List AttributeFrame

namespace ClassFrame

def bytes (file : ClassFrame) : Bytes :=
  file.head.bytes ++ (rowBytes MemberFrame.bytes file.fields ++
    (rowBytes MemberFrame.bytes file.methods ++ rowBytes AttributeFrame.bytes file.attributes))

/-- Every count fits its word. -/
structure Fits (file : ClassFrame) : Prop where
  fields : file.fields.length < 0x10000
  eachField : ∀ field ∈ file.fields, field.attributes.length < 0x10000
  methods : file.methods.length < 0x10000
  eachMethod : ∀ method ∈ file.methods, method.attributes.length < 0x10000
  attributes : file.attributes.length < 0x10000

/-- The class that the file declares, or why it is refused. -/
def decl (file : ClassFrame) : Except ClassFileError ClassDecl := do
  let head := file.head.head
  let fields ← file.fields.mapM (MemberFrame.field head.pool)
  let methods ← file.methods.mapM (MemberFrame.method head.pool)
  tableTold head.pool (reviseClass head.pool head.thisIndex) (head.decl fields methods)
    file.attributes

end ClassFrame

/-! ## One table of a file -/

/-- The three kinds of attribute tables. -/
inductive TableKind where
  | ofField
  | ofMethod
  | ofClass

namespace TableKind

/-- What the attributes of such a table revise. -/
def Decl : TableKind → Type
  | ofField => FieldDecl
  | ofMethod => MethodDecl
  | ofClass => ClassDecl

/-- The names that are recognised in such a table. -/
def names : TableKind → List String
  | ofField => fieldNames
  | ofMethod => methodNames
  | ofClass => classNames

def revise (head : ClassHead) : (kind : TableKind) → String → kind.Decl → Reader kind.Decl
  | ofField => reviseField head.pool
  | ofMethod => reviseMethod head.pool
  | ofClass => reviseClass head.pool head.thisIndex

end TableKind

/-- A class file without its head and without one of its attribute tables. -/
inductive TableHole : TableKind → Type
  | ofField (front : List MemberFrame) (member : MemberHead) (back methods : List MemberFrame)
      (attributes : List AttributeFrame) : TableHole .ofField
  | ofMethod (fields front : List MemberFrame) (member : MemberHead) (back : List MemberFrame)
      (attributes : List AttributeFrame) : TableHole .ofMethod
  | ofClass (fields methods : List MemberFrame) : TableHole .ofClass

namespace TableHole

variable {kind : TableKind}

/-- The file with this table in its place. -/
def fill (head : HeadFrame) (table : List AttributeFrame) : TableHole kind → ClassFrame
  | ofField front member back methods attributes =>
    { head, fields := front ++ ⟨member, table⟩ :: back, methods, attributes }
  | ofMethod fields front member back attributes =>
    { head, fields, methods := front ++ ⟨member, table⟩ :: back, attributes }
  | ofClass fields methods => { head, fields, methods, attributes := table }

/-- The bytes of the file in front of the table. -/
def before (head : HeadFrame) : TableHole kind → Bytes
  | ofField front member back _ _ =>
    head.bytes ++ (word2 (front.length + (back.length + 1)) ++
      (front.flatMap MemberFrame.bytes ++ member.bytes))
  | ofMethod fields front member back _ =>
    head.bytes ++ (rowBytes MemberFrame.bytes fields ++
      (word2 (front.length + (back.length + 1)) ++
        (front.flatMap MemberFrame.bytes ++ member.bytes)))
  | ofClass fields methods =>
    head.bytes ++ (rowBytes MemberFrame.bytes fields ++ rowBytes MemberFrame.bytes methods)

/-- The bytes of the file in front of an attribute: those in front of its table, the number of
attributes there, and the attributes in front of it. -/
def beforeAttribute (head : HeadFrame) (count : Nat) (front : List AttributeFrame)
    (hole : TableHole kind) : Bytes :=
  hole.before head ++ (word2 count ++ front.flatMap AttributeFrame.bytes)

/-- The bytes of the file behind the table. -/
def after : TableHole kind → Bytes
  | ofField _ _ back methods attributes =>
    back.flatMap MemberFrame.bytes ++
      (rowBytes MemberFrame.bytes methods ++ rowBytes AttributeFrame.bytes attributes)
  | ofMethod _ _ _ back attributes =>
    back.flatMap MemberFrame.bytes ++ rowBytes AttributeFrame.bytes attributes
  | ofClass _ _ => []

/-- What the attributes of the table start from. -/
def start (head : ClassHead) : TableHole kind → Except ClassFileError kind.Decl
  | ofField _ member _ _ _ => member.told head.pool JavaType.parse bareField
  | ofMethod _ _ member _ _ => member.told head.pool MethodType.parse bareMethod
  | ofClass fields methods => do
    let fields ← fields.mapM (MemberFrame.field head.pool)
    let methods ← methods.mapM (MemberFrame.method head.pool)
    return head.decl fields methods

theorem bytes_fill (hole : TableHole kind) (head : HeadFrame) (table : List AttributeFrame) :
    (hole.fill head table).bytes =
      hole.before head ++ (rowBytes AttributeFrame.bytes table ++ hole.after) := by
  cases hole with
  | ofField | ofMethod =>
    simp only [fill, before, after, ClassFrame.bytes, rowBytes, MemberFrame.bytes,
      List.length_append, List.length_cons, List.flatMap_append, List.flatMap_cons,
      List.append_assoc]
  | ofClass =>
    simp only [fill, before, after, ClassFrame.bytes, List.append_assoc, List.append_nil]

end TableHole

end ClassAtlas.ClassFile
