import ClassAtlas.ClassName
import ClassAtlas.Explorer
import ClassAtlas.ParseOutcome

/-!
# Importing classes

An import enumerates locations, parses them, stages the classes and resolves them into a graph.
Faults of single locations and ignored duplicates go into the report of the graph; only when nothing
at all can be read does the import fail. A location that ends the program leaves no graph.
-/

namespace ClassAtlas

structure Importer where
  settings : Settings := {}
  filters : Filters := []
  deriving Inhabited

/-- What is to be imported. -/
inductive ImportRequest where
  | locations (listed : List Location)
  /-- Directories, archives and class files. -/
  | roots (paths : List Path)
  /-- The class path without what comes from archives. -/
  | classpath
  /-- The class path and all runtime modules, with further filters. -/
  | classpathWith (extra : Filters)
  | packages (names : List String)
  /-- The packages of classes. -/
  | classesOf (names : List String)
  | runtimeModules (modules : ModuleFilter)

namespace ImportRequest

/-- The class path and all runtime modules. -/
def entireClasspath : ImportRequest := classpathWith []

end ImportRequest

/-- The store that the settings or the environment name, if it can be used. -/
def ModuleStore.find? (disk : Disk) (environment : Environment) (settings : Settings) :
    Option ModuleStore :=
  (ModuleStore.locate? environment settings).bind fun root =>
    (ModuleStore.discover disk root).toOption

namespace Importer

/-- An importer with the filters that its settings ask for. -/
def ofSettings (settings : Settings) : Except ImportError Importer :=
  (Filters.ofSettings settings).map fun filters => { settings, filters }

/-- The importer with further filters. -/
def withFilters (importer : Importer) (filters : Filters) : Importer :=
  { importer with filters := importer.filters ++ filters }

/-- The locations of a request. -/
def enumerate (importer : Importer) (disk : Disk) (environment : Environment)
    (request : ImportRequest) : Except ImportError Enumeration :=
  let explorer := Explorer.ofSettings importer.filters importer.settings
  let classpath := Classpath.ofSettings disk environment importer.settings
  let store? := ModuleStore.find? disk environment importer.settings
  match request with
  | .locations listed => .ok (.ofFindings importer.filters (listed.map Finding.location))
  | .roots paths => explorer.roots disk paths
  | .classpath => explorer.looseClasspath disk classpath none
  | .classpathWith extra =>
    { explorer with filters := explorer.filters ++ extra }.entireClasspath disk classpath store?
  | .packages names => explorer.packages disk classpath store? names
  | .classesOf names =>
    let owners := (names.map ClassName.package).foldl (fun ps p => insertAscending p ps) []
    explorer.packages disk classpath store? owners
  | .runtimeModules modules =>
    match store? with
    | some store => explorer.runtimeModules disk store modules
    | none => .error (.nothingImportable "the runtime module store")

/-- The graph of what became of enumerated locations. Its report lists the faults of the
enumeration, then those of parsing, then the ignored duplicates. -/
def graphOf (enumeration : Enumeration) (outcome : ParseOutcome) : ClassGraph :=
  let (staged, duplicates) := Staging.stageAll {} outcome.classes
  let report : Report :=
    { locationsEnumerated := enumeration.locations.length
      classesParsed := outcome.classes.length
      complete := outcome.isComplete }
  ClassGraph.ofStaged staged
    (((report.recordAll enumeration.failures).recordAll outcome.failures).recordAll duplicates)

/-- The graph of enumerated locations, as long as none of them ends the program. -/
def build (disk : Disk) (cancelled : Cancellation) (enumeration : Enumeration) : ClassGraph :=
  graphOf enumeration (ParseOutcome.parse disk cancelled enumeration.locations)

/-- The graph of a request, if parsing does not end the program. -/
def run (importer : Importer) (disk : Disk) (environment : Environment)
    (cancelled : Cancellation) (request : ImportRequest) :
    Attempt (Except ImportError ClassGraph) :=
  match importer.enumerate disk environment request with
  | .error error => .returned (.error error)
  | .ok enumeration =>
    (ParseOutcome.attempt disk cancelled enumeration.locations).map fun outcome =>
      .ok (graphOf enumeration outcome)

end Importer

end ClassAtlas
