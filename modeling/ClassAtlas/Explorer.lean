import ClassAtlas.Classpath
import ClassAtlas.Root

/-!
# Looking for class files

An explorer looks through roots in order and enumerates what it finds. An unreadable root is
recorded as a failure; only if no root can be read at all does the search fail.
-/

namespace ClassAtlas

/-- Filters, and how directories are walked. -/
structure Explorer where
  filters : Filters := []
  walk : WalkOptions := {}
  deriving Inhabited

/-- A root, and the directory of the package that is looked for in it. -/
structure Target where
  root : Root
  package? : Option String := none
  deriving Repr, DecidableEq, Inhabited

namespace Target

def explore (disk : Disk) (options : WalkOptions) (target : Target) : Exploration :=
  target.root.explore disk options target.package?

/-- What is found in a target, its own error at the end. -/
def findings (disk : Disk) (options : WalkOptions) (target : Target) : List Finding :=
  let exploration := target.explore disk options
  exploration.findings ++
    exploration.error.toList.map fun error =>
      .failure (.unreadable target.root.describe error.message)

end Target

namespace Classpath

def targets (classpath : Classpath) (package? : Option String) : List Target :=
  classpath.roots.map fun root => { root := .place root, package? }

end Classpath

namespace ModuleStore

def targets (store : ModuleStore) (modules : ModuleFilter) (package? : Option String) :
    List Target :=
  (store.modules.filter fun module => modules.includes module.name).map fun module =>
    { root := .runtimeModule store.root module, package? }

end ModuleStore

namespace Explorer

def ofSettings (filters : Filters) (settings : Settings) : Explorer :=
  { filters, walk := { followLinks := settings.followLinks, maxDepth := settings.maxDepth } }

/-- The enumeration of targets. `requested` says what they are. -/
def enumerate (explorer : Explorer) (disk : Disk) (targets : List Target) (requested : String) :
    Except ImportError Enumeration :=
  if targets.all fun target => (target.explore disk explorer.walk).error.isSome then
    .error (.nothingImportable requested)
  else
    .ok (.ofFindings explorer.filters (targets.flatMap (·.findings disk explorer.walk)))

/-- Directories, archives and class files. -/
def roots (explorer : Explorer) (disk : Disk) (paths : List Path) :
    Except ImportError Enumeration :=
  let requested :=
    if paths.isEmpty then "an empty list of roots"
    else String.intercalate ", " (paths.map Path.text)
  let targets : List Target :=
    paths.map fun path => { root := .place (Path.absolute disk.workingDirectory path) }
  explorer.enumerate disk targets requested

/-- The roots of a class path, then all runtime modules. -/
def entireClasspath (explorer : Explorer) (disk : Disk) (classpath : Classpath)
    (store? : Option ModuleStore) : Except ImportError Enumeration :=
  let modules := store?.toList.flatMap (·.targets .all none)
  explorer.enumerate disk (classpath.targets none ++ modules) "the classpath"

/-- The class path without what comes from archives. -/
def looseClasspath (explorer : Explorer) (disk : Disk) (classpath : Classpath)
    (store? : Option ModuleStore) : Except ImportError Enumeration :=
  let loose := { explorer with filters := explorer.filters ++ [LocationFilter.noArchives] }
  loose.entireClasspath disk classpath store?

/-- Packages, each in the roots of a class path and then in all runtime modules. -/
def packages (explorer : Explorer) (disk : Disk) (classpath : Classpath)
    (store? : Option ModuleStore) (names : List String) : Except ImportError Enumeration :=
  let targets := names.flatMap fun name =>
    let directory := some (packagePrefix name)
    classpath.targets directory ++ store?.toList.flatMap (·.targets .all directory)
  explorer.enumerate disk targets ("packages [" ++ String.intercalate ", " names ++ "]")

/-- The runtime modules that are asked for. -/
def runtimeModules (explorer : Explorer) (disk : Disk) (store : ModuleStore)
    (modules : ModuleFilter) : Except ImportError Enumeration :=
  explorer.enumerate disk (store.targets modules none) store.describe

end Explorer

end ClassAtlas
