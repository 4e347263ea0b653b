import ClassAtlas.Archive.Record

/-!
# Extra fields

A header in the directory of an archive may have extra fields, each with a kind, a size and content.
They hold numbers that are too great for the header, texts in Unicode, points of time, or how
content is sealed. A field that breaks the rules of its kind spoils the header; fields that break
off are passed over, and what was read before them counts.
-/

namespace ClassAtlas

namespace ExtraField

/-- Why fields are not read further. -/
inductive Stop where
  | broken
  | refused
  deriving Repr, DecidableEq, Inhabited

/-- What fields change, and the bytes to come. -/
structure State where
  entry : ArchiveEntry
  nameBytes : Bytes
  commentBytes : Bytes
  rest : Bytes
  deriving Inhabited

/-- A reader of fields. What it has changed stays when it stops. -/
abbrev Reader := ExceptT Stop (StateM State)

def takeBytes (count : Nat) : Reader Bytes := do
  match splitExactly? count (← get).rest with
  | some (first, rest) =>
    modify ({ · with rest })
    return first
  | none => throw .broken

def takeNumber (width : Nat) : Reader Nat := do
  return littleEndian (← takeBytes width)

def require (isFine : Bool) : Reader Unit :=
  if isFine then return () else throw .refused

def changeEntry (change : ArchiveEntry → ArchiveEntry) : Reader Unit :=
  modify fun state => { state with entry := change state.entry }

/-- The sizes and the offset. The field holds those that are left out of the header, or all. -/
def readWideNumbers (size : Nat) : Reader Unit := do
  let told := (← get).entry
  let isHere (number : Nat) : Bool := 24 ≤ size || isLeftOut number
  if isHere told.size then
    let number ← takeNumber 8
    changeEntry ({ · with size := number })
  if isHere told.compressedSize then
    let number ← takeNumber 8
    changeEntry ({ · with compressedSize := number })
  if isHere told.headerOffset then
    let number ← takeNumber 8
    changeEntry ({ · with headerOffset := number })
  let used := 8 * [told.size, told.compressedSize, told.headerOffset].countP isHere
  require (used ≤ size)
  let _ ← takeBytes (size - used)

/-- Three points of time under one tag. -/
def readFileTimes (size : Nat) : Reader Unit := do
  require (size = 32)
  let _ ← takeNumber 4
  require ((← takeNumber 2) = 1)
  require ((← takeNumber 2) = 24)
  let _ ← takeBytes 24

/-- Up to three points of time, as flags tell. Whatever they tell, there may be one alone. -/
def readTimestamps (size : Nat) : Reader Unit := do
  let flags ← takeNumber 1
  require (size = 5 || size = 1 + 4 * (List.range 8).countP flags.testBit)
  require (flags < 8)
  let _ ← takeBytes (size - 1)

/-- How content is sealed, and the method by which it was compressed before. -/
def readSeal (size : Nat) : Reader Unit := do
  require (size = 7)
  let version ← takeNumber 2
  let vendor ← takeNumber 2
  let strength ← takeNumber 1
  let method ← takeNumber 2
  require (vendor = 0x4541 && (1 ≤ version && version ≤ 2) && (1 ≤ strength && strength ≤ 3))
  changeEntry ({ · with method, isSealed := true })

/-- A text in Unicode for one whose bytes have the given checksum. -/
def readText (size : Nat) (replaced : Bytes) : Reader (Bytes × String) := do
  let _ ← takeNumber 1
  let told ← takeNumber 4
  require (5 ≤ size)
  let bytes ← takeBytes (size - 5)
  require ((checksum replaced).toNat = told)
  match bytes.utf8? with
  | some text => return (bytes, text)
  | none => throw .refused

def readField : Reader Unit := do
  let kind ← takeNumber 2
  let size ← takeNumber 2
  match kind with
  | 0x0001 => readWideNumbers size
  | 0x000A => readFileTimes size
  | 0x5455 => readTimestamps size
  | 0x6375 =>
    let (bytes, _) ← readText size (← get).commentBytes
    modify ({ · with commentBytes := bytes })
  | 0x7075 =>
    let (bytes, name) ← readText size (← get).nameBytes
    modify ({ · with nameBytes := bytes })
    changeEntry ({ · with name })
  | 0x9901 => readSeal size
  | _ =>
    let _ ← takeBytes size

/-- All fields. Each takes a byte, so `fuel` as great as the number of bytes is enough. -/
def readFields : Nat → Reader Unit
  | 0 => return ()
  | fuel + 1 => do
    if (← get).rest.isEmpty then return ()
    else
      readField
      readFields fuel

end ExtraField

/-- The entry with what the extra fields behind its header change, given the bytes of its name and
its comment. -/
def ArchiveEntry.withExtraFields? (entry : ArchiveEntry) (nameBytes commentBytes fields : Bytes) :
    Option ArchiveEntry :=
  match (ExtraField.readFields fields.length).run
      { entry, nameBytes, commentBytes, rest := fields } with
  | (.error .refused, _) => none
  | (_, state) => some state.entry

end ClassAtlas
