import ClassAtlas.Glob.Match
import ClassAtlas.Location
import ClassAtlas.Settings

/-!
# Location filters

A filter keeps or drops a location by what the location is, never by its bytes. A location is
imported if all filters keep it.
-/

namespace ClassAtlas

/-- The module that every other runtime module depends on. -/
def baseModule : String := "java.base"

/-- Whether text after `/build/classes/` goes on with `test/`, or with a language and `test/`. -/
def startsTestClasses (after : List Char) : Bool :=
  "test/".toList.isPrefixOf after ||
    match after.dropWhile (· ≠ '/') with
    | _ :: rest => "test/".toList.isPrefixOf rest
    | [] => false

/-- Whether one of the `/build/classes/`, searched one behind the other, holds test classes. Each
search takes text, so `fuel` as long as the text is enough. -/
def hasTestClasses (fuel : Nat) (uri : List Char) : Bool :=
  match fuel, textAfter? "/build/classes/".toList uri with
  | 0, _ | _, none => false
  | fuel + 1, some after => startsTestClasses after || hasTestClasses fuel after

/-- Whether a URI points into the test output of a common build layout: Maven, IntelliJ or
Gradle. -/
def isTestLocation (uri : String) : Bool :=
  occursIn "/target/test-classes/".toList uri.toList ||
    occursIn "/out/test/".toList uri.toList ||
    hasTestClasses uri.length uri.toList

/-- Whether an entry describes a package and no class. -/
def isPackageInfoEntry (entry : String) : Bool :=
  entry = "package-info.class" || hasEnding "/package-info.class" entry

inductive LocationFilter where
  | noArchives
  | noJars
  | noRuntimeModules
  | noTests
  | onlyTests
  | noPackageInfos
  /-- Drops what one of the patterns describes. -/
  | excluding (patterns : List Glob.Pattern)
  /-- Keeps only classes of these runtime modules. -/
  | onlyModules (names : List String)
  /-- Any other condition. -/
  | satisfying (keeps : Location → Bool)

namespace LocationFilter

/-- A filter by patterns, if they all compile. -/
def excludingPatterns (patterns : List String) : Except ImportError LocationFilter :=
  match patterns.mapM Glob.Pattern.compile with
  | .ok patterns => .ok (excluding patterns)
  | .error cause => .error (.badPattern cause)

def onlyBaseModule : LocationFilter := onlyModules [baseModule]

def includes (filter : LocationFilter) (location : Location) : Bool :=
  match filter with
  | noArchives => !location.isArchive
  | noJars => !location.isJar
  | noRuntimeModules => !location.isRuntimeModule
  | noTests => !isTestLocation location.uri
  | onlyTests => isTestLocation location.uri
  | noPackageInfos => !isPackageInfoEntry location.entry
  | excluding patterns => !patterns.any (·.accepts location.uri)
  | onlyModules names => location.module?.any (names.contains ·)
  | satisfying keeps => keeps location

end LocationFilter

/-- Filters in the order in which they were added. -/
abbrev Filters := List LocationFilter

namespace Filters

def includes (filters : Filters) (location : Location) : Bool :=
  filters.all (·.includes location)

/-- The filters that the exclusions of the settings ask for. -/
def ofSettings (settings : Settings) : Except ImportError Filters := do
  let byPattern ←
    if settings.excludePatterns.isEmpty then pure []
    else (LocationFilter.excludingPatterns settings.excludePatterns).map ([·])
  return byPattern ++
    (if settings.excludeTests then [LocationFilter.noTests] else []) ++
    (if settings.excludePackageInfos then [LocationFilter.noPackageInfos] else [])

end Filters

/-- Which runtime modules are opened at all. -/
inductive ModuleFilter where
  | all
  | only (names : List String)
  deriving Repr, DecidableEq, Inhabited

def ModuleFilter.includes : ModuleFilter → String → Bool
  | all, _ => true
  | only names, name => names.contains name

end ClassAtlas
