import ClassAtlas.Settings.Validation
import ClassAtlas.Toml.Document

/-!
# Settings from TOML

A configuration file is a TOML document whose keys are settings. Keys of no meaning here are
skipped; a key of the wrong type makes the whole file malformed.
-/

namespace ClassAtlas

open Toml

/-- A setting that is there in the right form or not there at all. -/
def readSetting {α : Type} (entries : Entries) (key : String) (read : Value → Option α) :
    Option (Option α) :=
  match entries.find? key with
  | none => some none
  | some value => (read value).map some

namespace Toml.Value

def asString? : Value → Option String
  | string text => some text
  | _ => none

def asBool? : Value → Option Bool
  | boolean value => some value
  | _ => none

/-- Counts have 64 bits. -/
def asCount? : Value → Option Nat
  | integer value => if 0 ≤ value ∧ value < 0x10000000000000000 then some value.toNat else none
  | _ => none

def asStrings? : Value → Option (List String)
  | array _ items => items.mapM asString?
  | _ => none

end Toml.Value

namespace PartialSettings

/-- The settings of a document, if all have the right types. -/
def ofEntries (entries : Entries) : Option PartialSettings := do
  let classpath ← readSetting entries "classpath" Value.asStrings?
  let javaHome ← readSetting entries "java_home" Value.asString?
  let excludePatterns ← readSetting entries "exclude_patterns" Value.asStrings?
  let excludeTests ← readSetting entries "exclude_tests" Value.asBool?
  let excludePackageInfos ← readSetting entries "exclude_package_infos" Value.asBool?
  let parallel ← readSetting entries "parallel" Value.asBool?
  let workerThreads ← readSetting entries "worker_threads" Value.asCount?
  let followLinks ← readSetting entries "follow_links" Value.asBool?
  let maxDepth ← readSetting entries "max_depth" Value.asCount?
  return {
    classpath := classpath.map fun paths => paths.map Path.mk
    javaHome := javaHome.map Path.mk
    excludePatterns, excludeTests, excludePackageInfos, parallel, workerThreads, followLinks
    maxDepth }

/-- The settings of the text of a configuration file. -/
def ofToml (text : String) (path : Path) : Except ImportError PartialSettings := do
  let settings ← orError (.configMalformed path) ((Toml.parse text).bind ofEntries)
  settings.validate path
  return settings

end PartialSettings

end ClassAtlas
