import ClassAtlas.Annotation
import ClassAtlas.ClassFile.Reader
import ClassAtlas.ClassName
import ClassAtlas.Text.ModifiedUtf8

/-!
# The constant pool

The constants of a class file stand in slots that are counted from one. An eight-byte constant
takes two slots, and the second one holds nothing. Looking up a slot that does not hold a constant
of the kind in demand fails with the index of that slot.
-/

namespace ClassAtlas

/-- A constant, as far as class structure needs it. -/
inductive Constant where
  | text (value : String)
  | integer (value : Int32)
  /-- The bits of a single-precision number. -/
  | float (bits : UInt32)
  | long (value : Int64)
  /-- The bits of a double-precision number. -/
  | double (bits : UInt64)
  | classRef (nameIndex : UInt16)
  | stringRef (textIndex : UInt16)
  /-- A constant that only code refers to. -/
  | other
  deriving Repr, DecidableEq, Inhabited

namespace Constant

def isWide : Constant → Bool
  | long _ | double _ => true
  | _ => false

/-- The slots that a constant takes. -/
def slots (constant : Constant) : List (Option Constant) :=
  if constant.isWide then [some constant, none] else [some constant]

/-- The text that the bytes of a text constant stand for. -/
def textOf (bytes : Bytes) : Except ClassFileError String :=
  match ModifiedUtf8.decode bytes with
  | some characters => .ok (String.ofList characters)
  | none => .error .badText

def readText : Reader Constant := do
  let length ← Reader.u2
  let bytes ← Reader.take length.toNat
  return .text (← Reader.lift (textOf bytes))

/-- The bytes after the tag of a constant that only code refers to: member references and dynamic
constants have four, method handles three, method types, modules and packages two. -/
def otherSize? : UInt8 → Option Nat
  | 9 | 10 | 11 | 12 | 17 | 18 => some 4
  | 15 => some 3
  | 16 | 19 | 20 => some 2
  | _ => none

def read : Reader Constant := do
  match (← Reader.u1) with
  | 1 => readText
  | 3 => return .integer (← Reader.u4).toInt32
  | 4 => return .float (← Reader.u4)
  | 5 => return .long (← Reader.u8).toInt64
  | 6 => return .double (← Reader.u8)
  | 7 => return .classRef (← Reader.u2)
  | 8 => return .stringRef (← Reader.u2)
  | tag =>
    match otherSize? tag with
    | some size =>
      Reader.skip size
      return .other
    | none => Reader.fail (.unsupportedConstant tag)

/-- Constants for `slots` slots. An eight-byte constant in the last one is read all the same. -/
def readList (slots : Nat) : Reader (List Constant) :=
  match slots with
  | 0 => return []
  | 1 => return [← read]
  | slots + 2 => do
    let first ← read
    let others ← if first.isWide then readList slots else readList (slots + 1)
    return first :: others

end Constant

/-- The slots of a class file's constants. Slot zero holds nothing. -/
structure ConstantPool where
  slots : Array (Option Constant)

namespace ConstantPool

def ofConstants (constants : List Constant) : ConstantPool :=
  { slots := (none :: constants.flatMap Constant.slots).toArray }

/-- The declared count is one more than the number of slots in use. -/
def read : Reader ConstantPool := do
  let count ← Reader.u2
  return ofConstants (← Constant.readList (count.toNat - 1))

/-- What `select` makes of the constant in a slot. -/
def find {α : Type} (pool : ConstantPool) (select : Constant → Option α) (index : UInt16) :
    Except ClassFileError α :=
  match pool.slots[index.toNat]?.join.bind select with
  | some a => .ok a
  | none => .error (.badConstantIndex index)

def text (pool : ConstantPool) (index : UInt16) : Except ClassFileError String :=
  pool.find (fun | .text value => some value | _ => none) index

/-- The dotted name of a class constant. -/
def className (pool : ConstantPool) (index : UInt16) : Except ClassFileError String := do
  let nameIndex ← pool.find (fun | .classRef nameIndex => some nameIndex | _ => none) index
  let name ← pool.text nameIndex
  return String.ofList (ClassName.dotted name.toList)

def integer (pool : ConstantPool) (index : UInt16) : Except ClassFileError Int32 :=
  pool.find (fun | .integer value => some value | _ => none) index

def float (pool : ConstantPool) (index : UInt16) : Except ClassFileError UInt32 :=
  pool.find (fun | .float bits => some bits | _ => none) index

def long (pool : ConstantPool) (index : UInt16) : Except ClassFileError Int64 :=
  pool.find (fun | .long value => some value | _ => none) index

def double (pool : ConstantPool) (index : UInt16) : Except ClassFileError UInt64 :=
  pool.find (fun | .double bits => some bits | _ => none) index

/-- The character with this code point, or U+FFFD. -/
def charOf (value : Int32) : Char :=
  let code := value.toUInt32.toNat
  if code.isValidChar then Char.ofNat code else Utf16.replacement

/-- An integer constant as a value of a field of the given type. -/
def integerFor (type : JavaType) (value : Int32) : ElementValue :=
  match type with
  | .primitive .boolean => .boolean (value ≠ 0)
  | .primitive .byte => .byte value.toInt8
  | .primitive .char => .char (charOf value)
  | .primitive .short => .short value.toInt16
  | _ => .int value

/-- The initial value that a constant gives to a field of the given type. -/
def constantFor (pool : ConstantPool) (type : JavaType) (index : UInt16) :
    Except ClassFileError ElementValue := do
  match (← pool.find some index) with
  | .integer value => return integerFor type value
  | .long value => return .long value
  | .float bits => return .float bits
  | .double bits => return .double bits
  | .stringRef textIndex => return .string (← pool.text textIndex)
  | .text _ | .classRef _ | .other => .error (.badConstantIndex index)

end ConstantPool

end ClassAtlas
