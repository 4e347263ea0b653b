import ClassAtlas.Archive
import ClassAtlas.Location

/-!
# The bytes of locations

Reading a location opens its file or archive anew. What goes wrong is told with the URI.
-/

namespace ClassAtlas.Location

/-- The bytes of the class file. -/
def read (disk : Disk) (location : Location) : Except ImportError Bytes :=
  match location.storage with
  | .loose path => atLocation location.uri ((disk.read path).mapError DiskFault.message)
  | .archived archive name =>
    atLocation location.uri
      (((Archive.openAt disk archive).bind (·.read name)).mapError ImportError.message)

/-- Whether reading the location ends the program. -/
def overflows (disk : Disk) (location : Location) : Bool :=
  match location.storage with
  | .loose _ => false
  | .archived archive name => (Archive.openAt disk archive).toOption.any (·.overflows name)

/-- Opens the location for reading. A file that is opened can still fail to be read. -/
def openStream (disk : Disk) (location : Location) :
    Except ImportError (Except DiskFault Bytes) :=
  match location.storage with
  | .loose path =>
    (atLocation location.uri ((disk.find path).mapError DiskFault.message)).map Disk.contentOf
  | .archived _ _ => (location.read disk).map .ok

end ClassAtlas.Location
