import ClassAtlas.ClassFile.Error
import ClassAtlas.Glob
import ClassAtlas.Path

/-!
# What can go wrong in an import

Faults of single locations and ignored duplicates are recorded in the report of an import and
never stop it. Critical errors fail the whole call. A call that asks for more memory than a program
can have does not fail: it ends the program.
-/

namespace ClassAtlas

inductive Severity where
  | warning
  /-- One location fails and the import goes on. -/
  | error
  /-- The call fails. -/
  | critical
  deriving Repr, DecidableEq, Inhabited

def Severity.label : Severity → String
  | warning => "WARNING"
  | error => "ERROR"
  | critical => "CRITICAL"

/-- Why an archive or one of its entries cannot be read. -/
inductive ArchiveError where
  | entryNotFound
  | invalid (reason : String)
  /-- Something that is allowed in an archive and not read here. -/
  | unsupported (feature : String)
  /-- The bytes of the archive cannot be read, or there are too few. -/
  | io
  | wrongPassword
  deriving Repr, DecidableEq, Inhabited

def ArchiveError.message : ArchiveError → String
  | entryNotFound => "specified file not found in archive"
  | invalid reason => "invalid Zip archive: " ++ reason
  | unsupported feature => "unsupported Zip archive: " ++ feature
  | io => "i/o error"
  | wrongPassword => "provided password is incorrect"

inductive ImportError where
  | io (reason : String)
  | archive (path : Path) (cause : ArchiveError)
  | malformedClassFile (location : String) (cause : ClassFileError)
  | unreadable (location reason : String)
  | packageNotFound (name : String)
  /-- A second class of a name that was there already. -/
  | duplicateClass (name kept ignored : String)
  /-- Nothing that was asked for could be read at all. -/
  | nothingImportable (requested : String)
  | config (message : String)
  | configNotFound (path : Path)
  | configUnreadable (path : Path) (reason : String)
  | configMalformed (path : Path)
  | badPattern (cause : Glob.PatternError)
  | badPath (path : Path)
  deriving Repr, DecidableEq, Inhabited

namespace ImportError

def message : ImportError → String
  | io reason => "IO error: " ++ reason
  | archive path cause => "archive error in " ++ path.text ++ ": " ++ cause.message
  | malformedClassFile location cause =>
    "malformed class file at " ++ location ++ ": " ++ cause.message
  | unreadable location reason => "unreadable location " ++ location ++ ": " ++ reason
  | packageNotFound name => "package '" ++ name ++ "' not found"
  | duplicateClass name kept ignored =>
    "duplicate class " ++ name ++ " at " ++ ignored ++ " ignored, keeping " ++ kept
  | nothingImportable requested => "no importable locations found in " ++ requested
  | config message => "Configuration error: " ++ message
  | configNotFound path => "Configuration file not found at " ++ path.text
  | configUnreadable path reason =>
    "Error reading configuration file " ++ path.text ++ ": " ++ reason
  | configMalformed path => "Error parsing configuration file " ++ path.text
  | badPattern cause => "Glob pattern error: " ++ cause.message
  | badPath path => "Invalid path: " ++ path.text

def severity : ImportError → Severity
  | duplicateClass _ _ _ => .warning
  | nothingImportable _ | config _ | configNotFound _ | configUnreadable _ _ | configMalformed _
  | badPattern _ => .critical
  | io _ | archive _ _ | malformedClassFile _ _ | unreadable _ _ | packageNotFound _
  | badPath _ => .error

def isCritical (error : ImportError) : Bool := error.severity = .critical

/-- The error, if it has to fail the call. -/
def ifCritical (error : ImportError) : Option ImportError :=
  if error.isCritical then some error else none

/-- The locations involved; of two classes of one name the one that is kept comes first. -/
def locations : ImportError → List String
  | malformedClassFile location _ | unreadable location _ => [location]
  | duplicateClass _ kept ignored => [kept, ignored]
  | archive path _ | badPath path => [path.text]
  | _ => []

/-- The message for readers of a report. -/
def userMessage (error : ImportError) : String :=
  match error with
  | malformedClassFile location cause =>
    "Skipped '" ++ location ++ "': not a valid class file (" ++ cause.message ++ ")."
  | unreadable location reason => "Skipped '" ++ location ++ "': " ++ reason ++ "."
  | duplicateClass name kept ignored =>
    "Class '" ++ name ++ "' found more than once; using '" ++ kept ++ "' and ignoring '" ++
      ignored ++ "'."
  | nothingImportable requested =>
    "Nothing could be imported from " ++ requested ++
      ". Check that the paths exist and are readable."
  | badPath path =>
    "Invalid path: '" ++ path.text ++ "'. Please provide an existing directory or archive."
  | configNotFound path => "Configuration file not found at '" ++ path.text ++ "'."
  | _ => error.message

end ImportError

variable {α β : Type}

/-- What a call comes to: it returns, or it ends the program. -/
inductive Attempt (α : Type) where
  | returned (value : α)
  | crashed
  deriving Repr, DecidableEq, Inhabited

/-- What is done with a value, if there is one. -/
def Attempt.map (f : α → β) : Attempt α → Attempt β
  | returned value => returned (f value)
  | crashed => crashed

/-- A failure with its context, as a configuration error. -/
def withContext (context : String) : Except String α → Except ImportError α
  | .ok a => .ok a
  | .error reason => .error (.config (context ++ ": " ++ reason))

/-- A failure to read a location. -/
def atLocation (location : String) : Except String α → Except ImportError α
  | .ok a => .ok a
  | .error reason => .error (.unreadable location reason)

/-- The error, if there is one. -/
def errorOf? {ε : Type} : Except ε α → Option ε
  | .ok _ => none
  | .error error => some error

/-- A value that has to be there. -/
def orError (error : ImportError) : Option α → Except ImportError α
  | some a => .ok a
  | none => .error error

end ClassAtlas
