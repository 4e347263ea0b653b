import ClassAtlas.Archive.ExtraField
import ClassAtlas.Text.Utf8

/-!
# Headers

The directory of an archive has a header for each entry. Behind its fixed part stand the name, extra
fields and a comment.
-/

namespace ClassAtlas

namespace ArchiveEntry

def headerSignature : Bytes := [0x50, 0x4B, 0x01, 0x02]

/-- The size of the fixed part of a header. -/
def headerSize : Nat := 46

/-- A text in a header: Unicode if it is marked so, one character for each byte otherwise. -/
def headerText (isUnicode : Bool) (bytes : Bytes) : String :=
  if isUnicode then Utf8.decodeLossy bytes
  else String.ofList (bytes.map fun byte => Char.ofNat byte.toNat)

/-- The method that stands for sealed content. -/
def sealedMethod : Nat := 99

/-- The entry whose header is in front of the bytes, and the bytes after it. Everything is shifted
by `shift`, and the content starts before `limit`. -/
def ofHeader? (shift limit : Nat) (bytes : Bytes) : Option (ArchiveEntry × Bytes) := do
  let (header, bytes) ← splitExactly? headerSize bytes
  let (name, bytes) ← splitExactly? (numberAt header 28 2) bytes
  let (fields, bytes) ← splitExactly? (numberAt header 30 2) bytes
  let (comment, bytes) ← splitExactly? (numberAt header 32 2) bytes
  let flags := numberAt header 8 2
  let isUnicode := flags.testBit 11
  let told : ArchiveEntry :=
    { name := headerText isUnicode name
      method := numberAt header 10 2
      checksum := UInt32.ofNat (numberAt header 16 4)
      size := numberAt header 24 4
      compressedSize := numberAt header 20 4
      headerOffset := numberAt header 42 4
      isEncrypted := flags.testBit 0
      isSealed := false }
  let commentBytes := (headerText isUnicode comment).toUTF8.toList
  let entry ← told.withExtraFields? name commentBytes fields
  let headerOffset := entry.headerOffset + shift
  if !headerSignature.isPrefixOf header then none
  else if entry.method = sealedMethod ∧ !entry.isSealed then none
  else if limit ≤ headerOffset then none
  else some ({ entry with headerOffset }, bytes)

end ArchiveEntry

end ClassAtlas
