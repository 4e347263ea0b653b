import ClassAtlas.Disk

/-!
# Changing disks

Writing files and making and removing directories. A change that fails half way keeps what it has
done so far.
-/

namespace ClassAtlas

namespace FileTree

/-- The children with one set or, given nothing, removed. -/
def setChild (name : String) (tree? : Option FileTree) (children : List (String × FileTree)) :
    List (String × FileTree) :=
  let others := children.filter (·.1 ≠ name)
  match tree? with
  | some tree => others ++ [(name, tree)]
  | none => others

/-- The tree with what stands at the end of the names set or removed. Where there is no directory
on the way nothing changes. -/
def replace (tree : FileTree) (names : List String) (new? : Option FileTree) : FileTree :=
  match names, tree with
  | [name], directory children => directory (setChild name new? children)
  | name :: names, directory children =>
    match children.lookup name with
    | some child => directory (setChild name (some (child.replace names new?)) children)
    | none => tree
  | _, _ => tree

end FileTree

/-- A change of a disk, which may fail. -/
abbrev DiskEdit := ExceptT DiskFault (StateM Disk)

namespace Disk

/-- Where the last step of a path starts, and the name that it leads to. A path that ends in a dot
or at the root has no such name. -/
def lastStep (disk : Disk) (trail : Trail) (path : Path) :
    Except DiskFault (Trail × Option String) := do
  let start := if path.isAbsolute then [] else trail
  let steps := plainSteps path.text
  match steps.getLast? with
  | some (.into name) =>
    return (← follow disk.root true maxLinks start (steps.dropLast ++ [.stay]), some name)
  | _ => return (← follow disk.root true maxLinks start steps, none)

/-- The names from the root to a new name. Only what is there already can be asked for without a
name. -/
def place (disk : Disk) (path : Path) : Except DiskFault (List String) := do
  match (← disk.lastStep [] (← disk.asked path)) with
  | (trail, some name) =>
    if maxNameSize < name.utf8ByteSize then .error .nameTooLong else return trail.names ++ [name]
  | (_, none) => .error .alreadyExists

def replace (disk : Disk) (names : List String) (new? : Option FileTree) : Disk :=
  { disk with root := disk.root.replace names new? }

end Disk

namespace DiskEdit

/-- Puts a tree under a path, in the place of what was there. -/
def put (path : Path) (tree : FileTree) : DiskEdit Unit := do
  let names ← (← get).place path
  modify (·.replace names (some tree))

/-- Writes a file under a path that starts where the trail ends. A link in its place is followed,
also to where nothing is yet; it leads through at most `links` others. -/
def writeFrom (links : Nat) (trail : Disk.Trail) (path : Path) (bytes : Bytes) :
    DiskEdit Unit := do
  let disk ← get
  match (← disk.lastStep trail path) with
  | (_, none) => throw .isDirectory
  | (trail, some name) =>
    if Disk.endsWithSlash path.text then throw .isDirectory
    match Disk.follow disk.root false 0 trail [.into name], links with
    | .ok ((_, .directory _) :: _), _ => throw .isDirectory
    | .ok ((_, .link _) :: _), 0 => throw .tooManyLinks
    | .ok ((_, .link target) :: _), links + 1 => writeFrom links trail ⟨target⟩ bytes
    | .error .nameTooLong, _ => throw .nameTooLong
    | _, _ => set (disk.replace (trail.names ++ [name]) (some (.file bytes)))

def write (path : Path) (bytes : Bytes) : DiskEdit Unit := do
  writeFrom Disk.maxLinks [] (← (← get).asked path) bytes

/-- Makes a directory in one that is there. -/
def makeDirectory (path : Path) : DiskEdit Unit := do
  let disk ← get
  let names ← disk.place path
  match Disk.follow disk.root false 0 [] (names.map .into) with
  | .ok _ => throw .alreadyExists
  | .error _ => set (disk.replace names (some (.directory [])))

/-- Makes a directory, after those around it if they are missing. It takes a step up for each of
them, so `fuel` as great as the number of components is enough. -/
def makeDirectoriesWithin (fuel : Nat) (path : Path) : DiskEdit Unit := do
  let orIsThere (fault : DiskFault) : DiskEdit Unit := do
    if (← get).isDirectory path then return () else throw fault
  try makeDirectory path
  catch
    | .notFound =>
      match fuel, path.parent? with
      | fuel + 1, some parent =>
        if parent.isEmpty then throw .notFound
        else
          makeDirectoriesWithin fuel parent
          tryCatch (makeDirectory path) orIsThere
      | _, _ => throw .notFound
    | fault => orIsThere fault

/-- Makes a directory and the missing ones around it. -/
def makeDirectories (path : Path) : DiskEdit Unit :=
  makeDirectoriesWithin path.components.length path

/-- Makes the missing directories around a path. -/
def makeParents (path : Path) : DiskEdit Unit := do
  match path.parent? with
  | some parent =>
    if parent.isEmpty || (← get).exists? parent then return () else makeDirectories parent
  | none => return ()

/-- Removes a file, a link or a whole directory; nothing, if it is not there. -/
def remove (path : Path) : DiskEdit Unit := do
  let disk ← get
  match disk.locate path false with
  | .ok trail => set (disk.replace trail.names none)
  | .error _ => return ()

end DiskEdit

end ClassAtlas
