import ClassAtlas.Archive.Ending

/-!
# Archive directories

The directory of an archive is found from the end: the last closing record counts that says nothing
wrong and leads to sound headers.
-/

namespace ClassAtlas

namespace ArchiveDirectory

/-- The entries of `count` headers. -/
def entries? (shift limit : Nat) : Nat → Bytes → Option (List ArchiveEntry)
  | 0, _ => some []
  | count + 1, bytes => do
    let (first, rest) ← ArchiveEntry.ofHeader? shift limit bytes
    return first :: (← entries? shift limit count rest)

/-- The entries that an ending leads to. -/
def entriesOf? (bytes : Bytes) (ending : ArchiveEnding) : Option (List ArchiveEntry) :=
  let start := ending.directoryStart
  if ending.isSound then entries? ending.shift start ending.count (bytes.drop start) else none

/-- The entries that the first of some closing records leads to. A wrong one is reported rather
than those after it in the file; one that breaks off only if there is no other fault. After headers
that are not sound the search starts anew. -/
def search (bytes : Bytes) (fault : Option ArchiveError) :
    List Nat → Except ArchiveError (List ArchiveEntry)
  | [] => .error (fault.getD (.invalid "Could not find EOCD"))
  | place :: places =>
    match ArchiveEnding.at? bytes place with
    | .error (.broken cause) => search bytes (fault.or (some cause)) places
    | .error (.wrong cause) => search bytes (some cause) places
    | .ok ending =>
      match entriesOf? bytes ending with
      | some entries => .ok entries
      | none => search bytes none places

end ArchiveDirectory

/-- The entries of an archive, in the order of its directory. -/
def archiveEntries (bytes : Bytes) : Except ArchiveError (List ArchiveEntry) :=
  ArchiveDirectory.search bytes none (placesOf ArchiveEnding.signature bytes)

end ClassAtlas
