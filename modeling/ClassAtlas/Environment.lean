import ClassAtlas.Path

/-!
# Environments

The variables that an import sees, and the directories that they name.
-/

namespace ClassAtlas

/-- Variables by name. -/
structure Environment where
  entries : List (String × String) := []
  deriving Repr, DecidableEq, Inhabited

/-- The paths of a list with colons between them. An empty text is one empty path. -/
def pathsOfList (text : String) : List Path :=
  (text.toList.splitOn ':').map fun part => ⟨String.ofList part⟩

namespace Environment

def get? (environment : Environment) (name : String) : Option String :=
  environment.entries.lookup name

/-- The user's home. An empty variable names none. -/
def home? (environment : Environment) : Option Path :=
  ((environment.get? "HOME").filter (· ≠ "")).map Path.mk

/-- Where programs keep their settings: the directory that is set for it, if it is absolute, and
`.config` in the home otherwise. -/
def configDirectory? (environment : Environment) : Option Path :=
  (((environment.get? "XDG_CONFIG_HOME").map Path.mk).filter (·.isAbsolute)).or
    (environment.home?.map (·.join ⟨".config"⟩))

end Environment

end ClassAtlas
