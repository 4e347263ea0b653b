import ClassAtlas.ClassFile.Decode
import ClassAtlas.ClassGraph
import ClassAtlas.Location.Content

/-!
# Batches

Locations are read in batches: runs of loose files, or of entries of one archive, which is opened
once for all of them. While a batch is read it asks again and again whether the import is
cancelled. What it then leaves out is neither read nor reported as a failure. What is read may end
the program, and then nothing is reported at all.
-/

namespace ClassAtlas

/-- The most locations in one batch. -/
def batchSize : Nat := 256

/-- Whether two locations are entries of one archive, or both loose files. -/
def sharesArchive (first second : Location) : Bool :=
  match first.storage.archive?, second.storage.archive? with
  | none, none => true
  | some a, some b => a.same b
  | _, _ => false

/-- The batches of locations, in order. -/
def batchesOf : List Location → List (List Location)
  | [] => []
  | first :: rest =>
    let others := (rest.takeWhile (sharesArchive first)).take (batchSize - 1)
    (first :: others) :: batchesOf (rest.drop others.length)
termination_by locations => locations.length
decreasing_by simp only [List.length_drop, List.length_cons]; omega

/-- What becomes of a location: its class or an error, or nothing if it was left out. -/
abbrev Outcome := Option (Except ImportError SourcedClass)

/-- The class in the bytes of a location. -/
def decodeAt (location : Location) (bytes : Bytes) : Except ImportError SourcedClass :=
  match ClassDecl.decode bytes with
  | .ok decl => .ok { decl, source := some location }
  | .error cause => .error (.malformedClassFile location.uri cause)

/-- The class of a location that is read on its own. -/
def readClass (disk : Disk) (location : Location) : Except ImportError SourcedClass :=
  (location.read disk).bind (decodeAt location)

/-- The class of a location whose archive is open already. -/
def readOpened (disk : Disk) (archive : Archive) (location : Location) :
    Except ImportError SourcedClass :=
  match location.storage with
  | .archived _ name =>
    (atLocation location.uri ((archive.read name).mapError ImportError.message)).bind
      (decodeAt location)
  | .loose _ => readClass disk location

/-- Whether reading a location whose archive is open already ends the program. -/
def overflowsOpened (disk : Disk) (archive : Archive) (location : Location) : Bool :=
  match location.storage with
  | .archived _ name => archive.overflows name
  | .loose _ => location.overflows disk

/-- What becomes of the locations of a batch, if its `n`th question, counted from zero, is answered
with `cancelled n`. Before an archive is opened there is one more question. -/
def readBatch (disk : Disk) (cancelled : Nat → Bool) (batch : List Location) : List Outcome :=
  match batch.head?.bind (·.storage.archive?) with
  | none =>
    batch.zipIdx.map fun (location, n) =>
      if cancelled n then none else some (readClass disk location)
  | some path =>
    if cancelled 0 then batch.map fun _ => none
    else
      match Archive.openAt disk path with
      | .error cause =>
        batch.map fun location => some (.error (.unreadable location.uri cause.message))
      | .ok archive =>
        batch.zipIdx.map fun (location, n) =>
          if cancelled (n + 1) then none else some (readOpened disk archive location)

/-- Whether reading a batch ends the program, because of a location that is not left out. -/
def batchOverflows (disk : Disk) (cancelled : Nat → Bool) (batch : List Location) : Bool :=
  match batch.head?.bind (·.storage.archive?) with
  | none => batch.zipIdx.any fun (location, n) => !cancelled n && location.overflows disk
  | some path =>
    !cancelled 0 && (Archive.openAt disk path).toOption.any fun archive =>
      batch.zipIdx.any fun (location, n) =>
        !cancelled (n + 1) && overflowsOpened disk archive location

end ClassAtlas
