import ClassAtlas.Disk
import ClassAtlas.Environment
import ClassAtlas.Importable
import ClassAtlas.Settings

/-!
# Module stores

A Java installation keeps its runtime modules as directories or as archives. A module that is there
in both forms is taken from its directory. A packed image of all modules is noticed and not read.
-/

namespace ClassAtlas

inductive ModuleSource where
  /-- An archive of its own, with the classes in a directory of it. -/
  | packed (archive : Path)
  /-- A directory. -/
  | exploded (directory : Path)
  deriving Repr, DecidableEq, Inhabited

def ModuleSource.path : ModuleSource → Path
  | packed archive => archive
  | exploded directory => directory

structure RuntimeModule where
  name : String
  source : ModuleSource
  deriving Repr, DecidableEq, Inhabited

/-- The runtime modules of an installation. -/
structure ModuleStore where
  root : Path
  /-- In the order of their names, which differ. -/
  modules : List RuntimeModule
  /-- Whether there is a packed image. -/
  hasImage : Bool
  deriving Repr, DecidableEq, Inhabited

namespace ModuleStore

/-- The place of the packed image. -/
def imagePlace : Path := ⟨"lib/modules"⟩

/-- The root of the store: that of the settings, or that which the environment names. -/
def locate? (environment : Environment) (settings : Settings) : Option Path :=
  settings.javaHome.or ((environment.get? "JAVA_HOME").map Path.mk)

/-- The children of a directory that is there. -/
def childrenIn (disk : Disk) (directory : Path) : Except ImportError (List Path) :=
  if disk.isDirectory directory then
    match disk.children directory with
    | .ok children => .ok children
    | .error fault => .error (.io fault.message)
  else .ok []

/-- The module in a directory. -/
def explodedModule? (disk : Disk) (path : Path) : Option RuntimeModule :=
  if disk.isDirectory path then
    path.fileName?.map fun name => { name, source := .exploded path }
  else none

/-- The module in an archive, which is called after it. -/
def packedModule? (path : Path) : Option RuntimeModule :=
  if path.isModuleArchive then path.stem?.map fun name => { name, source := .packed path }
  else none

/-- The store at the root of an installation. -/
def discover (disk : Disk) (root : Path) : Except ImportError ModuleStore :=
  if !disk.isDirectory root then .error (.badPath root)
  else do
    let directories ← childrenIn disk (root.join ⟨"modules"⟩)
    let archives ← childrenIn disk (root.join ⟨"jmods"⟩)
    let found := directories.filterMap (explodedModule? disk) ++ archives.filterMap packedModule?
    let modules := found.eraseDupsBy fun a b => a.name = b.name
    return {
      root
      modules := modules.mergeSort fun a b => decide (a.name ≤ b.name)
      hasImage := disk.isFile (root.join imagePlace) }

def module? (store : ModuleStore) (name : String) : Option RuntimeModule :=
  store.modules.find? (·.name = name)

def isEmpty (store : ModuleStore) : Bool := store.modules.isEmpty

/-- Whether there are modules only in the packed image. -/
def isImageOnly (store : ModuleStore) : Bool := store.modules.isEmpty && store.hasImage

/-- What an import from this store covers. -/
def describe (store : ModuleStore) : String :=
  let covered := "runtime modules of " ++ store.root.text
  if store.isImageOnly then
    covered ++ " (only the packed " ++ imagePlace.text ++
      " image is present, which is not supported)"
  else covered

end ModuleStore

end ClassAtlas
