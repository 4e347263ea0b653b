import ClassAtlas.Archive.Directory
import ClassAtlas.Archive.Inflate
import ClassAtlas.Disk
import ClassAtlas.Importable
import ClassAtlas.Package

/-!
# Archives

Jars, zip files and packed modules. Entries are known by name; of two entries of one name the later
one counts. Content is stored or deflated, and its checksum has to be right. Its size is what the
directory says, which nobody checks: an entry that declares more than a buffer can hold ends the
program of whoever reads it.
-/

namespace ClassAtlas

structure Archive where
  path : Path
  bytes : Bytes
  /-- The entries in the order of the directory. -/
  entries : List ArchiveEntry
  deriving Inhabited

namespace Archive

/-- The archive with the given content. -/
def ofBytes (path : Path) (bytes : Bytes) : Except ImportError Archive :=
  match archiveEntries bytes with
  | .ok entries => .ok { path, bytes, entries }
  | .error cause => .error (.archive path cause)

/-- The archive at a path. A directory can be opened like a file, but has no content. -/
def openAt (disk : Disk) (path : Path) : Except ImportError Archive :=
  match disk.find path with
  | .error fault => .error (.io fault.message)
  | .ok tree =>
    match Disk.contentOf tree with
    | .ok bytes => ofBytes path bytes
    | .error _ => .error (.archive path .io)

def entry? (archive : Archive) (name : String) : Option ArchiveEntry :=
  archive.entries.reverse.find? (·.name = name)

/-- The names of the entries below a directory that hold classes, in order. -/
def classEntries (archive : Archive) (directory : String) : List String :=
  let below := archive.entries.filterMap fun entry =>
    if (directory.toList.isPrefixOf? entry.name.toList).any
        fun rest => isImportableEntry (String.ofList rest)
      then some entry.name else none
  below.foldl (fun names name => insertAscending name names) []

def localSignature : Bytes := [0x50, 0x4B, 0x03, 0x04]

/-- The size of the header in front of content, without name and extra fields. -/
def localSize : Nat := 30

def storedMethod : Nat := 0

def deflatedMethod : Nat := 8

/-- The bytes that are stored for an entry, at most as many as told. -/
def storedBytes (archive : Archive) (entry : ArchiveEntry) : Except ArchiveError Bytes :=
  if entry.isEncrypted then .error (.unsupported "Password required to decrypt file")
  else
    match splitExactly? localSize (archive.bytes.drop entry.headerOffset) with
    | none => .error .io
    | some (header, rest) =>
      if !localSignature.isPrefixOf header then .error (.invalid "Invalid local file header")
      else if entry.method ∉ [storedMethod, deflatedMethod, ArchiveEntry.sealedMethod] then
        .error (.unsupported "Compression method not supported")
      else if entry.isSealed then .error .wrongPassword
      else
        let skipped := numberAt header 26 2 + numberAt header 28 2
        .ok ((rest.drop skipped).take entry.compressedSize)

/-- The entry of a name, with the bytes that are stored for it. -/
def find (archive : Archive) (name : String) : Except ImportError (ArchiveEntry × Bytes) :=
  match archive.entry? name with
  | none => .error (.archive archive.path .entryNotFound)
  | some entry =>
    match archive.storedBytes entry with
    | .error cause => .error (.archive archive.path cause)
    | .ok stored => .ok (entry, stored)

/-- What the bytes that are stored for an entry hold. -/
def contentOf (entry : ArchiveEntry) (stored : Bytes) : Except ImportError Bytes :=
  let content := if entry.method = deflatedMethod then inflate stored else .ok stored
  match content with
  | .error fault => .error (.io fault.message)
  | .ok bytes =>
    if checksum bytes = entry.checksum then .ok bytes else .error (.io "Invalid checksum")

/-- The largest buffer that a program can ask for, of one byte less than `2 ^ 63`. Memory is taken
to last for any that is not larger. -/
def largestBuffer : Nat := 0x7FFFFFFFFFFFFFFF

/-- Reading an entry. Before anything is read, a buffer is asked for that is as large as the
directory says the content is, whatever is stored. -/
def attempt (archive : Archive) (name : String) : Attempt (Except ImportError Bytes) :=
  match archive.find name with
  | .error error => .returned (.error error)
  | .ok (entry, stored) =>
    if largestBuffer < entry.size then .crashed else .returned (contentOf entry stored)

/-- Whether reading an entry ends the program. -/
def overflows (archive : Archive) (name : String) : Bool :=
  match archive.attempt name with
  | .returned _ => false
  | .crashed => true

/-- The content of an entry. There is none if reading it ends the program. -/
def read (archive : Archive) (name : String) : Except ImportError Bytes :=
  match archive.attempt name with
  | .returned result => result
  | .crashed => .error (.io "capacity overflow")

end Archive

end ClassAtlas
