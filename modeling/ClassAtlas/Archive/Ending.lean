import ClassAtlas.Archive.Header
import ClassAtlas.ImportError

/-!
# Ends of archives

An archive ends with a closing record, which says where the directory starts. Numbers that are too
great for it are left out and stand in a wide record, which a locator right before the closing
record points to. Other bytes may stand in front of an archive; then everything in it is shifted by
their number. The shift is known by where the directory, or the wide record, is found instead of
where it was told to be.
-/

namespace ClassAtlas

/-- What the end of an archive says about the directory. -/
structure ArchiveEnding where
  /-- By how much everything is shifted. -/
  shift : Nat
  directoryStart : Nat
  /-- The number of headers. -/
  count : Nat
  /-- Whether the records contradict nothing else. An archive is on one disk. -/
  isSound : Bool
  deriving Repr, DecidableEq, Inhabited

namespace ArchiveEnding

def signature : Bytes := [0x50, 0x4B, 0x05, 0x06]

def locatorSignature : Bytes := [0x50, 0x4B, 0x06, 0x07]

def wideSignature : Bytes := [0x50, 0x4B, 0x06, 0x06]

/-- The size of the closing record without its comment. -/
def recordSize : Nat := 22

def locatorSize : Nat := 20

/-- The size of the fixed part of a wide record. -/
def wideSize : Nat := 56

/-- The size of a wide record does not count its signature and the size itself. -/
def wideUncounted : Nat := 12

/-- What a closing record at `place` says by itself. The directory is where the record says or, if
other bytes stand in front of the archive, at the next header after that. An empty archive has no
headers. -/
def ofRecord (bytes record : Bytes) (place : Nat) : Except ArchiveError ArchiveEnding :=
  let told := numberAt record 16 4
  let ending (shift : Nat) : ArchiveEnding :=
    { shift, directoryStart := told + shift, count := numberAt record 8 2,
      isSound := numberAt record 4 2 = numberAt record 6 2 }
  if numberAt record 10 2 = 0 then .ok (ending (place - told))
  else if place ≤ told then .error (.invalid "Invalid CDFH offset in EOCD")
  else
    match placesBetween ArchiveEntry.headerSignature told place bytes with
    | found :: _ => .ok (ending (found - told))
    | [] => .error (.invalid "No CDFH found")

/-- What a wide record at `found` says. It ends where the locator stands, which has told the place
`told` for it and the disk of the directory. -/
def ofWideRecord (bytes locator : Bytes) (place told found : Nat) :
    Except ArchiveError ArchiveEnding :=
  let record := bytes.drop found
  let size := numberAt record 4 8 + wideUncounted
  let count := numberAt record 32 8
  let start := numberAt record 48 8
  if (splitExactly? wideSize record).isNone then .error .io
  else if size < wideSize then .error (.invalid "Low EOCD64 record size")
  else if place < found + size then .error (.invalid "EOCD64 extends beyond EOCD64 locator")
  else if numberAt record 20 4 ≠ numberAt locator 4 4 then
    .error (.invalid "Invalid EOCD64: inconsistency with Locator data")
  else if found + size < place then .error (.invalid "Invalid EOCD64: inconsistent length")
  else if found < count * ArchiveEntry.headerSize + start then
    .error (.invalid "Invalid EOCD64: inconsistent number of files")
  else
    .ok
      { shift := found - told, directoryStart := start + (found - told), count
        isSound := numberAt record 16 4 = numberAt record 20 4 ∧
          numberAt record 24 8 ≤ count ∧ numberAt record 14 2 ≤ numberAt record 12 2 }

/-- What the first of some wide records says that is right. The fault that was found last is
reported. -/
def firstWide (read : Nat → Except ArchiveError ArchiveEnding) (fault : ArchiveError) :
    List Nat → Except ArchiveError ArchiveEnding
  | [] => .error fault
  | found :: others =>
    match read found with
    | .ok ending => .ok ending
    | .error fault => firstWide read fault others

/-- What the wide record says that a locator at `place` points to. -/
def ofLocator (bytes locator : Bytes) (place : Nat) : Except ArchiveError ArchiveEnding :=
  let told := numberAt locator 8 8
  if place ≤ told then .error (.invalid "Invalid EOCD64 Locator CD offset")
  else if 1 < numberAt locator 16 4 then
    .error (.invalid "Multi-disk ZIP files are not supported")
  else
    firstWide (ofWideRecord bytes locator place told) (.invalid "Could not find EOCD64")
      (placesBetween wideSignature told place bytes)

/-- The locator right before a closing record, if the record leaves out a number. -/
def locator? (bytes record : Bytes) (place : Nat) : Option Bytes :=
  let locator := bytes.drop (place - locatorSize)
  let isWide := numberAt record 10 2 = 0xFFFF || isLeftOut (numberAt record 16 4)
  if isWide && locatorSize ≤ place && locatorSignature.isPrefixOf locator then some locator
  else none

/-- What is wrong with a closing record. -/
inductive Fault where
  /-- The record itself breaks off. -/
  | broken (cause : ArchiveError)
  /-- It says something wrong. -/
  | wrong (cause : ArchiveError)
  deriving Repr, DecidableEq, Inhabited

/-- What a closing record at `place` says, with those before it. -/
def at? (bytes : Bytes) (place : Nat) : Except Fault ArchiveEnding :=
  match splitExactly? recordSize (bytes.drop place) with
  | none => .error (.broken .io)
  | some (record, comment) =>
    if (splitExactly? (numberAt record 20 2) comment).isNone then
      .error (.broken (.invalid "Invalid EOCD comment length"))
    else
      let ending :=
        match locator? bytes record place with
        | some locator => ofLocator bytes locator (place - locatorSize)
        | none => ofRecord bytes record place
      ending.mapError .wrong

end ArchiveEnding

end ClassAtlas
