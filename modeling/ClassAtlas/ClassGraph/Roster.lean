import Std.Data.TreeMap.Basic

/-!
# Rosters

Named things, each at the place where it was added, and the place that each name was last given.
-/

namespace ClassAtlas

structure Roster (α : Type) where
  items : Array α := #[]
  places : Std.TreeMap String Nat := ∅
  deriving Inhabited

namespace Roster

variable {α : Type}

/-- The number of things. -/
def size (roster : Roster α) : Nat := roster.items.size

def isEmpty (roster : Roster α) : Bool := roster.items.isEmpty

/-- Puts a thing at the next place. -/
def add (roster : Roster α) (name : String) (item : α) : Roster α :=
  { items := roster.items.push item, places := roster.places.insert name roster.size }

/-- The place of a name. -/
def place? (roster : Roster α) (name : String) : Option Nat := roster.places[name]?

/-- The thing at the place of a name. -/
def find? (roster : Roster α) (name : String) : Option α :=
  (roster.place? name).bind fun place => roster.items[place]?

end Roster

end ClassAtlas
