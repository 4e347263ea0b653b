import ClassAtlas.Settings.Environment
import ClassAtlas.Settings.File

/-!
# Layers of settings

Settings come from configuration files, from variables and from the caller. A source that is not
there adds nothing; of those that are, the one with the higher priority has the last word, and
among equals the later one.
-/

namespace ClassAtlas

/-- Where settings come from. -/
inductive SettingsOrigin where
  | environment (family : String)
  | file (path : Path)
  deriving Repr, DecidableEq, Inhabited

structure SettingsSource where
  origin : SettingsOrigin
  name : String
  priority : Nat
  deriving Repr, DecidableEq, Inhabited

/-- What a source has to offer when it is asked. -/
structure SettingsOffer where
  priority : Nat
  available : Bool
  loaded : Except ImportError PartialSettings

namespace SettingsSource

def ofVariables (family : String) : SettingsSource :=
  { origin := .environment family, name := family ++ " environment variables", priority := 20 }

def ofFile (path : Path) : SettingsSource :=
  { origin := .file path, name := "config file (" ++ path.text ++ ")", priority := 10 }

def standardFile : SettingsSource :=
  { origin := .file configFileName, name := "default config file", priority := 10 }

/-- What the source offers, given a disk and an environment. -/
def offer (source : SettingsSource) (disk : Disk) (environment : Environment) : SettingsOffer :=
  match source.origin with
  | .environment family =>
    { priority := source.priority
      available := environment.hasSettings family
      loaded := PartialSettings.ofEnvironment environment family }
  | .file path =>
    { priority := source.priority
      available := disk.isFile path
      loaded := if disk.isFile path then disk.readConfig path else .error (.configNotFound path) }

end SettingsSource

namespace PartialSettings

/-- The settings with those of an offer over them. What is not available changes nothing. -/
def load (settings : PartialSettings) (offer : SettingsOffer) :
    Except ImportError PartialSettings :=
  if offer.available then offer.loaded.map settings.merge else .ok settings

/-- The settings with those of an offer over them, if it can be loaded. -/
def loadIfSound (settings : PartialSettings) (offer : SettingsOffer) : PartialSettings :=
  match settings.load offer with
  | .ok merged => merged
  | .error _ => settings

/-- The settings with all offers over them, from the lowest priority to the highest. -/
def loadAll (settings : PartialSettings) (offers : List SettingsOffer) :
    Except ImportError PartialSettings :=
  (offers.mergeSort fun a b => decide (a.priority ≤ b.priority)).foldlM load settings

/-- The settings with those of a file over them. The file has to be there. -/
def addFile (settings : PartialSettings) (disk : Disk) (environment : Environment) (path : Path) :
    Except ImportError PartialSettings :=
  ((SettingsSource.ofFile path).offer disk environment).loaded.map settings.merge

/-- The settings with those of the first configuration file over them. A broken file is passed
over. -/
def addStandardFile (settings : PartialSettings) (disk : Disk) (environment : Environment) :
    PartialSettings :=
  match disk.readFirstConfig environment.configFiles with
  | .ok (some layer) => settings.merge layer
  | _ => settings

/-- The settings as they are used, checked. -/
def build (settings : PartialSettings) : Except ImportError Settings := do
  let complete := settings.complete
  complete.validate
  return complete

end PartialSettings

/-- The family of variables that is read if no other is asked for. -/
def standardFamily : String := "CLASSIMPORT"

namespace Settings

/-- The settings of the caller over those of the variables. -/
def overVariables (base : PartialSettings) (environment : Environment) (disk : Disk)
    (family : String) (overrides : PartialSettings) : Except ImportError Settings := do
  let settings ← base.load ((SettingsSource.ofVariables family).offer disk environment)
  (settings.merge overrides).build

/-- The settings of the caller, over those of the variables, over the first configuration file. -/
def load (disk : Disk) (environment : Environment) (family : String)
    (overrides : PartialSettings) : Except ImportError Settings :=
  overVariables (PartialSettings.addStandardFile {} disk environment) environment disk family
    overrides

/-- The settings of the caller, over those of the variables, over the given configuration file. -/
def loadWithFile (disk : Disk) (environment : Environment) (path : Path) (family : String)
    (overrides : PartialSettings) : Except ImportError Settings := do
  let base ← PartialSettings.addFile {} disk environment path
  overVariables base environment disk family overrides

end Settings

end ClassAtlas
