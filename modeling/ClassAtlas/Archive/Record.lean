import ClassAtlas.Text.Utf8

/-!
# Records and entries

The records of an archive start with a signature. Their numbers are fields of fixed width with the
lowest byte first. What they tell of each entry includes a checksum of its content.
-/

namespace ClassAtlas

/-! ## Fields -/

/-- The number that bytes denote, the lowest first. -/
def littleEndian : Bytes → Nat
  | [] => 0
  | byte :: rest => byte.toNat + 256 * littleEndian rest

/-- The number in `width` bytes at a place, zero if they are not there. -/
def numberAt (bytes : Bytes) (offset width : Nat) : Nat :=
  littleEndian ((bytes.drop offset).take width)

/-- A number of four bytes that stands in another record, where there is more room. -/
def isLeftOut (number : Nat) : Bool := number = 0xFFFFFFFF

/-- The first `count` bytes and those after them, if there are so many. -/
def splitExactly? (count : Nat) (bytes : Bytes) : Option (Bytes × Bytes) :=
  let first := bytes.take count
  if first.length = count then some (first, bytes.drop count) else none

/-- The places where the bytes go on with `part`, the last first. -/
def placesOf (part : Bytes) (bytes : Bytes) : List Nat :=
  go 0 bytes []
where
  go (place : Nat) (bytes : Bytes) (found : List Nat) : List Nat :=
    match bytes with
    | [] => found
    | byte :: rest =>
      go (place + 1) rest (if part.isPrefixOf (byte :: rest) then place :: found else found)

/-- The places from `first` up to where `part` ends before `last`, the first first. -/
def placesBetween (part : Bytes) (first last : Nat) (bytes : Bytes) : List Nat :=
  (placesOf part ((bytes.take last).drop first)).reverse.map (first + ·)

/-! ## Entries -/

/-- An entry as the directory of an archive describes it. -/
structure ArchiveEntry where
  name : String
  /-- How content is compressed. -/
  method : Nat
  checksum : UInt32
  size : Nat
  compressedSize : Nat
  /-- Where the header in front of the content stands in the file. -/
  headerOffset : Nat
  isEncrypted : Bool
  /-- Whether an extra field tells that content is sealed with a password. -/
  isSealed : Bool
  deriving Repr, DecidableEq, Inhabited

/-! ## Checksums

The cyclic redundancy check with 32 bits: the remainder of the content, as a polynomial, modulo a
fixed polynomial of degree 32. -/

/-- The polynomial without its leading term, the highest power in the lowest bit. -/
def checksumPolynomial : UInt32 := 0xEDB88320

/-- The remainder after one more bit. -/
def checksumBit (remainder : UInt32) : UInt32 :=
  if remainder &&& 1 = 1 then (remainder >>> 1) ^^^ checksumPolynomial else remainder >>> 1

/-- The remainder after one more byte. -/
def checksumByte (remainder : UInt32) (byte : UInt8) : UInt32 :=
  (List.range 8).foldl (fun r _ => checksumBit r) (remainder ^^^ byte.toUInt32)

/-- All bits are inverted before the first byte and after the last. -/
def checksum (bytes : Bytes) : UInt32 := bytes.foldl checksumByte 0xFFFFFFFF ^^^ 0xFFFFFFFF

/-- The value with which implementations of the check are compared. -/
example : checksum "123456789".toUTF8.toList = 0xCBF43926 := by decide +kernel

end ClassAtlas
