import ClassAtlas.Settings

/-!
# Validation of settings

A layer is checked where it is read, with the name of its file in the message; the merged settings
are checked once more. The first fault found is reported: class path, Java home, patterns in
order, workers, depth.
-/

namespace ClassAtlas

/-- The first error among checks. -/
def firstError (checks : List (Option String)) : Except ImportError Unit :=
  match checks.findSome? id with
  | some message => .error (.config message)
  | none => .ok ()

def patternFault? (pattern : String) : Option String :=
  match Glob.Pattern.compile pattern with
  | .ok _ => none
  | .error cause => some cause.message

namespace PartialSettings

/-- The check of one pattern of a layer. -/
def checkPattern (path : Path) (pattern : String) : Option String :=
  if pattern.isEmpty then some ("Empty exclude pattern in config file: " ++ path.text)
  else
    (patternFault? pattern).map fun fault =>
      "Invalid exclude pattern '" ++ pattern ++ "' in config file: " ++ path.text ++ ": " ++ fault

/-- Checks the layer that was read from `path`. -/
def validate (layer : PartialSettings) (path : Path) : Except ImportError Unit :=
  firstError <|
    [if (layer.classpath.getD []).any Path.isEmpty then
        some ("Empty classpath entry in config file: " ++ path.text)
      else none,
      if layer.javaHome.any Path.isEmpty then
        some ("Invalid empty java_home in config file: " ++ path.text)
      else none] ++
    (layer.excludePatterns.getD []).map (checkPattern path) ++
    [if layer.workerThreads = some 0 then
        some ("Invalid worker_threads 0 in config file: " ++ path.text ++ ". Must be at least 1.")
      else none,
      if layer.maxDepth = some 0 then
        some ("Invalid max_depth 0 in config file: " ++ path.text ++ ". Must be at least 1.")
      else none]

end PartialSettings

namespace Settings

/-- Checks settings of any origin. -/
def validate (settings : Settings) : Except ImportError Unit :=
  firstError <|
    [if settings.classpath.any Path.isEmpty then some "Classpath entries must not be empty"
      else none,
      if settings.javaHome.any Path.isEmpty then some "java_home must not be empty" else none] ++
    settings.excludePatterns.map (fun pattern =>
      (patternFault? pattern).map fun fault =>
        "Invalid exclude pattern: " ++ pattern ++ ": " ++ fault) ++
    [if settings.workerThreads = some 0 then some "Worker threads must be at least 1" else none,
      if settings.maxDepth = some 0 then some "Max depth must be at least 1" else none]

end Settings

end ClassAtlas
