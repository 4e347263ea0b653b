import ClassAtlas.ClassName
import ClassAtlas.Path

/-!
# Locations

A location is a place where the bytes of one class file are. It is known by its URI: locations with
one URI count as the same. Everything here is read off the location itself; nothing looks at the
disk.
-/

namespace ClassAtlas

/-- Where bytes physically are. -/
inductive Storage where
  /-- A file of its own. -/
  | loose (path : Path)
  /-- A named entry of an archive. -/
  | archived (archive : Path) (name : String)
  deriving Repr, DecidableEq, Inhabited

namespace Storage

/-- The file on disk. -/
def file : Storage → Path
  | loose path => path
  | archived archive _ => archive

/-- The archive that holds the bytes. -/
def archive? : Storage → Option Path
  | loose _ => none
  | archived archive _ => some archive

end Storage

inductive LocationKind where
  | file
  | jar
  | runtimeModule
  deriving Repr, DecidableEq, Inhabited

def LocationKind.scheme : LocationKind → String
  | file => "file"
  | jar => "jar"
  | runtimeModule => "jrt"

inductive Location where
  /-- A class file that was found below a root directory. -/
  | file (root path : Path)
  /-- An entry of a jar or zip archive. -/
  | jarEntry (archive : Path) (name : String)
  /-- A class of a runtime module. -/
  | moduleEntry (store : Path) (module entry : String) (storage : Storage)
  deriving Repr, DecidableEq, Inhabited

def classFileEnding : String := ".class"

/-- The `file:` URI of a path, with forward slashes only. -/
def fileUri (path : Path) : String :=
  let text := String.ofList (path.text.toList.map fun c => if c = '\\' then '/' else c)
  if text.toList.head? = some '/' then "file://" ++ text else "file:///" ++ text

namespace Location

def uri : Location → String
  | file _ path => fileUri path
  | jarEntry archive name => "jar:" ++ fileUri archive ++ "!/" ++ name
  | moduleEntry _ module entry _ => "jrt:/" ++ module ++ "/" ++ entry

def kind : Location → LocationKind
  | file _ _ => .file
  | jarEntry _ _ => .jar
  | moduleEntry _ _ _ _ => .runtimeModule

/-- The directory, archive or module store that the location belongs to. -/
def container : Location → Path
  | file root _ => root
  | jarEntry archive _ => archive
  | moduleEntry store _ _ _ => store

/-- The place inside the container, with slashes. A file that is not below its root has only its
name. -/
def entry : Location → String
  | file root path =>
    match path.componentsBelow? root with
    | some components => String.intercalate "/" (components.map Path.Component.text)
    | none => path.fileName?.getD ""
  | jarEntry _ name => name
  | moduleEntry _ _ entry _ => entry

def module? : Location → Option String
  | moduleEntry _ module _ _ => some module
  | _ => none

def storage : Location → Storage
  | file _ path => .loose path
  | jarEntry archive name => .archived archive name
  | moduleEntry _ _ _ storage => storage

def isJar (location : Location) : Bool := location.kind = .jar

def isRuntimeModule (location : Location) : Bool := location.kind = .runtimeModule

/-- Jars and runtime modules both count as archives. -/
def isArchive (location : Location) : Bool := location.isJar || location.isRuntimeModule

def isClassFile (location : Location) : Bool := hasEnding classFileEnding location.entry

/-- The dotted class name that the entry suggests. The class file itself has the last word. -/
def classNameHint? (location : Location) : Option String :=
  (classFileEnding.toList.isSuffixOf? location.entry.toList).map fun stem =>
    String.ofList (ClassName.dotted stem)

/-- Whether the URI contains a text. -/
def mentions (location : Location) (part : String) : Bool :=
  occursIn part.toList location.uri.toList

/-- Whether the location, or what it belongs to, is at or below `root` on disk. -/
def isUnder (location : Location) (root : Path) : Bool :=
  location.storage.file.isWithin root || location.container.isWithin root

end Location

end ClassAtlas
