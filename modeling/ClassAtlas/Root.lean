import ClassAtlas.Archive
import ClassAtlas.Disk.Walk
import ClassAtlas.Enumeration
import ClassAtlas.ModuleStore

/-!
# Roots

A root is a place where class files are looked for: a directory, an archive, a single class file or
a runtime module, as a whole or only the part that belongs to a package. The search finds locations
in a fixed order: files by name, entries of archives by name. A root that cannot be read at all has
an error of its own.
-/

namespace ClassAtlas

inductive Root where
  /-- A directory, an archive or a class file. -/
  | place (path : Path)
  /-- A module of the store at `store`. -/
  | runtimeModule (store : Path) (found : RuntimeModule)
  deriving Repr, DecidableEq, Inhabited

/-- What is found in a root. -/
structure Exploration where
  findings : List Finding := []
  /-- Why the root is unreadable, if it is. -/
  error : Option ImportError := none
  deriving Repr, DecidableEq, Inhabited

namespace Exploration

def ofResult : Except ImportError (List Location) → Exploration
  | .ok locations => { findings := locations.map Finding.location }
  | .error error => { error := some error }

/-- The exploration with one more finding in front. -/
def after (finding : Finding) (exploration : Exploration) : Exploration :=
  { exploration with findings := finding :: exploration.findings }

end Exploration

/-- The directory of a packed module's archive that holds its classes. -/
def moduleClasses : String := "classes/"

/-- The URI of a runtime module. -/
def moduleUri (name : String) : String := "jrt:/" ++ name

namespace Root

def describe : Root → String
  | place path => path.text
  | runtimeModule _ found => moduleUri found.name

/-- The classes in a directory of an archive. -/
def archiveLocations (disk : Disk) (archive : Path) (directory : String) :
    Except ImportError (List Location) :=
  (Archive.openAt disk archive).map fun opened =>
    (opened.classEntries directory).map (.jarEntry archive)

/-- What a file in the directory `root` gives. Archives in it are opened, unless only a package is
looked for. -/
def fileFindings (disk : Disk) (root : Path) (opensArchives : Bool) (file : Path) : List Finding :=
  if file.isClassFile then
    if file.isModuleInfo then [] else [.location (.file root file)]
  else if file.isArchive && opensArchives then
    match archiveLocations disk file "" with
    | .ok locations => locations.map Finding.location
    | .error cause => [.failure (.unreadable file.text cause.message)]
  else []

def itemFindings (disk : Disk) (root : Path) (opensArchives : Bool) : WalkItem → List Finding
  | .visited path true => fileFindings disk root opensArchives path
  | .visited _ false => []
  | .fault cause => [.failure (.unreadable cause.path.text cause.message)]

/-- Where the classes of a package are in a directory. -/
def packageDirectory (directory : Path) (package? : Option String) : Path :=
  match package? with
  | some package => directory.join ⟨package⟩
  | none => directory

/-- What is found in a directory. A package that is not there is no error. -/
def exploreDirectory (disk : Disk) (options : WalkOptions) (root : Path)
    (package? : Option String) : Exploration :=
  let start := packageDirectory root package?
  if disk.isDirectory start then
    { findings := (disk.walk options start).flatMap (itemFindings disk root package?.isNone) }
  else {}

/-- What is found under a path. A single class file belongs to no package. -/
def explorePath (disk : Disk) (options : WalkOptions) (path : Path) (package? : Option String) :
    Exploration :=
  match disk.find path with
  | .error fault => { error := some (.io fault.message) }
  | .ok tree =>
    if tree.isDirectory then exploreDirectory disk options path package?
    else if path.isArchive then .ofResult (archiveLocations disk path (package?.getD ""))
    else if path.isClassFile then
      if package?.isSome then {}
      else { findings := [.location (.file (path.parent?.getD ⟨""⟩) path)] }
    else { error := some (.badPath path) }

/-- What a walk finds of the module in `directory`. It breaks off at a class file elsewhere. -/
def moduleFindings (store : Path) (name : String) (directory : Path) :
    List WalkItem → Exploration
  | [] => {}
  | .fault cause :: items =>
    (moduleFindings store name directory items).after
      (.failure (.unreadable (moduleUri name) cause.message))
  | .visited path isFile :: items =>
    if !isFile || !path.isClassFile || path.isModuleInfo then
      moduleFindings store name directory items
    else
      match path.componentsBelow? directory with
      | none => { error := some (.badPath path) }
      | some components =>
        let entry := String.intercalate "/" (components.map Path.Component.text)
        (moduleFindings store name directory items).after
          (.location (.moduleEntry store name entry (.loose path)))

/-- The classes of a packed module. The directory that holds them is no part of their entries. -/
def packedModuleLocations (disk : Disk) (store : Path) (name : String) (archive : Path)
    (package? : Option String) : Except ImportError (List Location) :=
  (Archive.openAt disk archive).map fun opened =>
    (opened.classEntries (moduleClasses ++ package?.getD "")).map fun full =>
      let entry := String.ofList (full.toList.drop moduleClasses.length)
      .moduleEntry store name entry (.archived archive full)

def exploreModule (disk : Disk) (options : WalkOptions) (store : Path) (found : RuntimeModule)
    (package? : Option String) : Exploration :=
  match found.source with
  | .exploded directory =>
    let start := packageDirectory directory package?
    if disk.isDirectory start then
      moduleFindings store found.name directory (disk.walk options start)
    else {}
  | .packed archive =>
    .ofResult (packedModuleLocations disk store found.name archive package?)

/-- What is found in a root, or in the part of it whose entries start with `package?`. -/
def explore (disk : Disk) (options : WalkOptions) (root : Root) (package? : Option String) :
    Exploration :=
  match root with
  | place path => explorePath disk options path package?
  | runtimeModule store found => exploreModule disk options store found package?

end Root

end ClassAtlas
