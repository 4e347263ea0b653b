import ClassAtlas.Environment
import ClassAtlas.Glob.Search
import ClassAtlas.Settings

/-!
# Class paths

A class path is an ordered list of absolute roots without repetition. An entry that ends in `*`
stands for the jars of a directory.
-/

namespace ClassAtlas

structure Classpath where
  roots : List Path
  deriving Repr, DecidableEq, Inhabited

namespace Classpath

/-- The file name of an entry that stands for jars. -/
def wildcard : String := "*"

/-- What a jar is called, its ending in any case. -/
def jarPattern : Path := ⟨"*.[jJ][aA][rR]"⟩

/-- The roots that an absolute entry stands for: itself, or the jars of its directory in order. A
directory that makes no pattern has none. -/
def expand (disk : Disk) (entry : Path) : List Path :=
  if entry.fileName? = some wildcard then
    match disk.glob ((entry.parent?.getD ⟨"."⟩).join jarPattern).text with
    | .ok jars => jars.mergeSort Path.le
    | .error _ => []
  else [entry]

/-- The class path of entries. Empty entries are skipped. -/
def ofEntries (disk : Disk) (entries : List Path) : Classpath :=
  let absolute := (entries.filter (!·.isEmpty)).map (Path.absolute disk.workingDirectory)
  ⟨(absolute.flatMap (expand disk)).eraseDupsBy Path.same⟩

/-- The class path that the environment names. -/
def ofEnvironment (disk : Disk) (environment : Environment) : Classpath :=
  ofEntries disk (((environment.get? "CLASSPATH").map pathsOfList).getD [])

/-- The explicit class path of the settings, if there is one, or that of the environment. -/
def ofSettings (disk : Disk) (environment : Environment) (settings : Settings) : Classpath :=
  if settings.classpath.isEmpty then ofEnvironment disk environment
  else ofEntries disk settings.classpath

def isEmpty (classpath : Classpath) : Bool := classpath.roots.isEmpty

end Classpath

end ClassAtlas
