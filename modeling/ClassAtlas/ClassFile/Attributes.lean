import ClassAtlas.ClassDecl
import ClassAtlas.ClassFile.Annotations
import ClassAtlas.Signature.Parser

/-!
# Attributes

An attribute has a name, a length and a body of that length. What an attribute tells is read from
its body alone; bytes that are left over in it and attributes of unknown name are skipped. Of two
attributes that set the same property the later wins; annotations add up.
-/

namespace ClassAtlas.ClassFile

/-- An attribute's name and body. The name is resolved before the length is read. -/
def readAttribute (pool : ConstantPool) : Reader (String × Bytes) := do
  let name ← operand pool.text
  let length ← Reader.u4
  let body ← Reader.take length.toNat
  return (name, body)

/-- A table of attributes, each of which revises a declaration by what its body tells. -/
def readAttributes {δ : Type} (pool : ConstantPool) (revise : String → δ → Reader δ) (decl : δ) :
    Reader δ := do
  let count ← Reader.u2
  Reader.iterate count.toNat (fun decl => do
    let (name, body) ← readAttribute pool
    Reader.inside body (revise name decl)) decl

def reviseField (pool : ConstantPool) (name : String) (field : FieldDecl) : Reader FieldDecl := do
  match name with
  | "Signature" =>
    let text ← operand pool.text
    let signature ← Reader.lift (TypeSignature.parse text)
    return { field with signature := some signature }
  | "ConstantValue" =>
    let constant ← operand (pool.constantFor field.type)
    return { field with constant := some constant }
  | "RuntimeVisibleAnnotations" =>
    let annotations ← readAnnotations pool true
    return { field with annotations := field.annotations ++ annotations }
  | "RuntimeInvisibleAnnotations" =>
    let annotations ← readAnnotations pool false
    return { field with annotations := field.annotations ++ annotations }
  | _ => return field

/-- Slot by slot concatenation; the longer list gives the number of slots. -/
def mergeSlots {α : Type} : List (List α) → List (List α) → List (List α) :=
  List.zipWithAll fun a b => a.getD [] ++ b.getD []

def reviseMethod (pool : ConstantPool) (name : String) (method : MethodDecl) :
    Reader MethodDecl := do
  match name with
  | "Signature" =>
    let text ← operand pool.text
    let signature ← Reader.lift (MethodSignature.parse text)
    return { method with signature := some signature }
  | "Exceptions" =>
    let count ← Reader.u2
    let exceptions ← Reader.times count.toNat (operand pool.className)
    return { method with exceptions := method.exceptions ++ exceptions }
  | "RuntimeVisibleAnnotations" =>
    let annotations ← readAnnotations pool true
    return { method with annotations := method.annotations ++ annotations }
  | "RuntimeInvisibleAnnotations" =>
    let annotations ← readAnnotations pool false
    return { method with annotations := method.annotations ++ annotations }
  | "RuntimeVisibleParameterAnnotations" =>
    let slots ← readParameterAnnotations pool true
    return { method with parameterAnnotations := mergeSlots method.parameterAnnotations slots }
  | "RuntimeInvisibleParameterAnnotations" =>
    let slots ← readParameterAnnotations pool false
    return { method with parameterAnnotations := mergeSlots method.parameterAnnotations slots }
  | _ => return method

/-- Whether an entry is about the class with this index and name. Its own index is not looked up. -/
def isOwnEntry (pool : ConstantPool) (thisIndex : UInt16) (name : String) (inner : UInt16) :
    Except ClassFileError Bool :=
  if inner = thisIndex then .ok true else (pool.className inner).map (· = name)

/-- Index zero stands for no class: only `java.lang.Object` has no superclass, and a local class
is not declared in another. -/
def optionalClassName (pool : ConstantPool) (index : UInt16) :
    Except ClassFileError (Option String) :=
  if index = 0 then .ok none else (pool.className index).map some

/-- An entry of the table of inner classes. The entry of the class itself, known by its index or
by its name, gives the modifiers that the source has, and the declaring class if there is one. -/
def readInnerClass (pool : ConstantPool) (thisIndex : UInt16) (decl : ClassDecl) :
    Reader ClassDecl := do
  let inner ← Reader.u2
  let outer ← Reader.u2
  let _innerName ← Reader.u2
  let flags ← Reader.u2
  if ← Reader.lift (isOwnEntry pool thisIndex decl.name inner) then
    let enclosing ← Reader.lift (optionalClassName pool outer)
    return { decl with
      access := ⟨flags⟩
      enclosingClass := enclosing.or decl.enclosingClass }
  else
    return decl

def reviseClass (pool : ConstantPool) (thisIndex : UInt16) (name : String) (decl : ClassDecl) :
    Reader ClassDecl := do
  match name with
  | "Signature" =>
    let text ← operand pool.text
    let signature ← Reader.lift (ClassSignature.parse text)
    return { decl with signature := some signature }
  | "SourceFile" =>
    let sourceFile ← operand pool.text
    return { decl with sourceFile := some sourceFile }
  | "InnerClasses" =>
    let count ← Reader.u2
    Reader.iterate count.toNat (readInnerClass pool thisIndex) decl
  | "EnclosingMethod" =>
    let enclosing ← operand pool.className
    return { decl with enclosingClass := some enclosing }
  | "RuntimeVisibleAnnotations" =>
    let annotations ← readAnnotations pool true
    return { decl with annotations := decl.annotations ++ annotations }
  | "RuntimeInvisibleAnnotations" =>
    let annotations ← readAnnotations pool false
    return { decl with annotations := decl.annotations ++ annotations }
  | _ => return decl

end ClassAtlas.ClassFile
