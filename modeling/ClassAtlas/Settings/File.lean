import ClassAtlas.Disk.Edit
import ClassAtlas.Environment
import ClassAtlas.Settings.Toml

/-!
# Configuration files

Where configuration files are looked for, how they are read, and the file that explains every
setting.
-/

namespace ClassAtlas

/-- The file name of a configuration file. -/
def configFileName : Path := ⟨".classimport.toml"⟩

/-- Where configuration files are looked for: the working directory, the home, and the directory
for settings. -/
def Environment.configFiles (environment : Environment) : List Path :=
  [configFileName] ++
    (environment.home?.map (·.join configFileName)).toList ++
    (environment.configDirectory?.map (·.join ⟨"classimport"⟩ |>.join ⟨"config.toml"⟩)).toList

/-- A configuration file with a word on every setting. -/
def explainedConfig : String :=
  String.join <| [
    "# classimport configuration",
    "#",
    "# Values left commented out fall back to their defaults.",
    "",
    "# Explicit classpath roots. When empty, the CLASSPATH environment variable is used.",
    "# A trailing \"*\" entry stands for every jar in that directory.",
    "# classpath = [\"target/classes\", \"lib/*\"]",
    "",
    "# Root of the Java runtime whose modules can be imported. Defaults to JAVA_HOME.",
    "# java_home = \"/usr/lib/jvm/java-21\"",
    "",
    "# Glob patterns matched against location URIs; matching locations are skipped.",
    "exclude_patterns = []",
    "",
    "# Skip Maven, Gradle and IntelliJ test output directories.",
    "exclude_tests = false",
    "",
    "# Skip package-info class files.",
    "exclude_package_infos = false",
    "",
    "# Parse class files on a worker pool.",
    "parallel = true",
    "",
    "# Number of parse workers. Defaults to the number of available cores.",
    "# worker_threads = 8",
    "",
    "# Follow symbolic links while walking directories.",
    "follow_links = false",
    "",
    "# Maximum directory depth to walk.",
    "# max_depth = 32"].map (· ++ "\n")

namespace Disk

/-- The settings of a configuration file that is there. -/
def readConfig (disk : Disk) (path : Path) : Except ImportError PartialSettings :=
  if !disk.exists? path then .error (.configNotFound path)
  else
    match disk.readText path with
    | .ok text => PartialSettings.ofToml text path
    | .error fault => .error (.configUnreadable path fault.message)

/-- The settings of the first candidate that is a file. -/
def readFirstConfig (disk : Disk) (candidates : List Path) :
    Except ImportError (Option PartialSettings) :=
  match candidates.find? disk.isFile with
  | some path => (disk.readConfig path).map some
  | none => .ok none

end Disk

/-- Writes the explained configuration file, after the missing directories around it. -/
def DiskEdit.writeExplainedConfig (path : Path) : DiskEdit Unit := do
  makeParents path
  write path explainedConfig.toUTF8.toList

end ClassAtlas
