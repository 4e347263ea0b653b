import ClassAtlas.Filter
import ClassAtlas.ImportError

/-!
# Enumerations

Looking for class files comes upon locations and faults. An enumeration keeps of the locations
those that the filters include, each URI once, and counts the others.
-/

namespace ClassAtlas

/-- What a search for class files comes upon. -/
inductive Finding where
  | location (found : Location)
  | failure (cause : ImportError)
  deriving Repr, DecidableEq, Inhabited

structure Enumeration where
  /-- The kept locations, in the order in which they were found. -/
  locations : List Location := []
  /-- Their URIs, the last first. -/
  uris : List String := []
  failures : List ImportError := []
  /-- How many locations the filters dropped. -/
  excluded : Nat := 0
  /-- How many locations had a URI that was kept already. -/
  repeated : Nat := 0
  deriving Repr, DecidableEq, Inhabited

namespace Enumeration

/-- Keeps a location, or counts it. -/
def push (filters : Filters) (enumeration : Enumeration) (location : Location) : Enumeration :=
  let uri := location.uri
  if enumeration.uris.contains uri then
    { enumeration with repeated := enumeration.repeated + 1 }
  else if filters.includes location then
    { enumeration with
      locations := enumeration.locations ++ [location], uris := uri :: enumeration.uris }
  else { enumeration with excluded := enumeration.excluded + 1 }

def add (filters : Filters) (enumeration : Enumeration) : Finding → Enumeration
  | .location found => enumeration.push filters found
  | .failure cause => { enumeration with failures := enumeration.failures ++ [cause] }

/-- The enumeration of findings in their order. -/
def ofFindings (filters : Filters) (findings : List Finding) : Enumeration :=
  findings.foldl (add filters) {}

def size (enumeration : Enumeration) : Nat := enumeration.locations.length

def isEmpty (enumeration : Enumeration) : Bool := enumeration.locations.isEmpty

end Enumeration

end ClassAtlas
