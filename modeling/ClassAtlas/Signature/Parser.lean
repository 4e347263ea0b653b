import ClassAtlas.ClassFile.Error
import ClassAtlas.Signature
import ClassAtlas.Text.Scan

/-!
# Reading generic signatures

The grammar has one knot, the reference type: class types hold arguments, arguments hold reference
types. `reference` ties it; every other rule is written over a given reader of reference types.
The length of the text bounds the nesting, because each level takes a character.
-/

namespace ClassAtlas

namespace TypeSignature

section Rules

variable (reference : Scan TypeSignature)

/-- A primitive or a reference type. -/
def scanJavaType : Scan TypeSignature := fun s =>
  match s with
  | [] => none
  | c :: rest =>
    match Primitive.ofTag? c with
    | some p => some (base p, rest)
    | none => reference s

def scanArgument : Scan TypeArgument := do
  match (← Scan.peek) with
  | '*' => Scan.expect '*'; return .any
  | '+' => Scan.expect '+'; return .upper (← reference)
  | '-' => Scan.expect '-'; return .lower (← reference)
  | _ => return .exactly (← reference)

/-- Arguments in angle brackets, at least one; or nothing. -/
def scanArguments : Scan (List TypeArgument) := do
  if (← Scan.peek) = '<' then
    Scan.expect '<'
    match (← Scan.upTo '>' (scanArgument reference)) with
    | [] => failure
    | arguments => return arguments
  else
    return []

/-- An inner-class suffix: its name after `$`, and its arguments. -/
def scanInner : Scan (List Char × List TypeArgument) := do
  Scan.expect '.'
  let name ← Scan.word ['<', '.', ';']
  let arguments ← scanArguments reference
  return ('$' :: name, arguments)

/-- A class type. Inner-class suffixes extend the name, and their arguments follow the outer
ones. -/
def scanClassType : Scan TypeSignature := do
  Scan.expect 'L'
  let outer ← Scan.word ['<', '.', ';']
  let arguments ← scanArguments reference
  let inner ← Scan.upTo ';' (scanInner reference)
  return classType (String.ofList (ClassName.dotted outer ++ inner.flatMap Prod.fst))
    (arguments ++ inner.flatMap Prod.snd)

/-- A class type, a type variable or an array. -/
def scanReferenceType : Scan TypeSignature := do
  match (← Scan.peek) with
  | 'L' => scanClassType reference
  | 'T' =>
    Scan.expect 'T'
    let name ← Scan.word [';']
    Scan.expect ';'
    return typeVariable (String.ofList name)
  | '[' =>
    Scan.expect '['
    return array (← scanJavaType reference)
  | _ => failure

end Rules

/-- Reference types that are nested less than `depth` deep. -/
def referenceWithin : Nat → Scan TypeSignature
  | 0 => fun _ => none
  | depth + 1 => scanReferenceType (referenceWithin depth)

/-- A reference type in front of a text. -/
def reference : Scan TypeSignature := fun s => referenceWithin s.length s

/-- The type that a field signature names. -/
def parse (text : String) : Except ClassFileError TypeSignature :=
  match Scan.whole reference text with
  | some type => .ok type
  | none => .error (.badSignature text)

end TypeSignature

namespace TypeParameter

/-- An interface bound, after its colon. -/
def scanInterfaceBounds : Nat → Scan (List TypeSignature)
  | 0 => fun _ => none
  | bound + 1 => do
    if (← Scan.peek) = ':' then
      Scan.expect ':'
      let first ← TypeSignature.reference
      let others ← scanInterfaceBounds bound
      return first :: others
    else
      return []

/-- A name, a colon, the class bound if a reference type starts here, and the interface bounds. -/
def scan : Scan TypeParameter := do
  let name ← Scan.word [':']
  Scan.expect ':'
  let classBound ←
    if (← Scan.peek) ∈ ['L', 'T', '['] then (return [← TypeSignature.reference]) else pure []
  let interfaceBounds ← fun s => scanInterfaceBounds s.length s
  return { name := String.ofList name, bounds := classBound ++ interfaceBounds }

/-- Type parameters in angle brackets, at least one; or nothing. -/
def scanList : Scan (List TypeParameter) := fun s =>
  match s with
  | '<' :: rest =>
    match Scan.upTo '>' scan rest with
    | none | some ([], _) => none
    | some (parameters, rest) => some (parameters, rest)
  | _ => some ([], s)

end TypeParameter

namespace ClassSignature

def scan : Scan ClassSignature := do
  let typeParameters ← TypeParameter.scanList
  let superclass ← TypeSignature.scanClassType TypeSignature.reference
  let interfaces ← Scan.toEnd (TypeSignature.scanClassType TypeSignature.reference)
  return { typeParameters, superclass, interfaces }

/-- The declaration that a class signature names. -/
def parse (text : String) : Except ClassFileError ClassSignature :=
  match Scan.whole scan text with
  | some signature => .ok signature
  | none => .error (.badSignature text)

end ClassSignature

namespace MethodSignature

/-- A return type: `V` or the type of a value. -/
def scanReturn : Scan TypeSignature := do
  if (← Scan.peek) = 'V' then
    Scan.expect 'V'
    return .void
  else
    TypeSignature.scanJavaType TypeSignature.reference

def scanThrows : Scan TypeSignature := do
  Scan.expect '^'
  TypeSignature.reference

def scan : Scan MethodSignature := do
  let typeParameters ← TypeParameter.scanList
  Scan.expect '('
  let parameters ← Scan.upTo ')' (TypeSignature.scanJavaType TypeSignature.reference)
  let returnType ← scanReturn
  let throws ← Scan.toEnd scanThrows
  return { typeParameters, parameters, returnType, throws }

/-- The declaration that a method signature names. -/
def parse (text : String) : Except ClassFileError MethodSignature :=
  match Scan.whole scan text with
  | some signature => .ok signature
  | none => .error (.badSignature text)

end MethodSignature

end ClassAtlas
