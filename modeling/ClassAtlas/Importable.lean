import ClassAtlas.Location

/-!
# What can be imported

Which files and archive entries hold classes, and which part of a tree belongs to a package. A
module descriptor looks like a class file and is none.
-/

namespace ClassAtlas

def moduleInfoFile : String := "module-info.class"

/-- Whether an archive entry holds a class. `META-INF` holds none. -/
def isImportableEntry (name : String) : Bool :=
  hasEnding classFileEnding name && !name.startsWith "META-INF/" &&
    name ≠ moduleInfoFile && !hasEnding ("/" ++ moduleInfoFile) name

/-- The directory of a package: `p/q/` for `p.q`. The slash at its end keeps `p/qr` out. The
default package has the empty prefix. Dots at the ends of the name do not count. -/
def packagePrefix (package : String) : String :=
  match trimWhere (· = '.') package.toList with
  | [] => ""
  | name => String.ofList (ClassName.slashed name ++ ['/'])

namespace Path

/-- A jar or zip archive, by its extension. -/
def isArchive (path : Path) : Bool := path.hasExtension "jar" || path.hasExtension "zip"

/-- An archive that holds a runtime module. -/
def isModuleArchive (path : Path) : Bool := path.hasExtension "jmod"

def isClassFile (path : Path) : Bool := hasEnding classFileEnding path.text

def isModuleInfo (path : Path) : Bool := path.fileName? = some moduleInfoFile

end Path

end ClassAtlas
