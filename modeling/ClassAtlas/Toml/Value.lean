/-!
# TOML values

Tables keep their entries in the order of the text. How a table was opened decides whether later
text may add to it.
-/

namespace ClassAtlas.Toml

/-- How a table came into being. -/
inductive TableKind where
  /-- By a header of its own, or as an item of an array of tables. -/
  | header
  /-- On the way to the table of a longer header. -/
  | implied
  /-- By a dotted key. -/
  | dotted
  /-- Between braces; such a table is closed. -/
  | inlined
  deriving Repr, DecidableEq, Inhabited

inductive Value where
  | string (text : String)
  | integer (value : Int)
  /-- A floating-point number as it is written. -/
  | float (text : String)
  | boolean (value : Bool)
  /-- A date, a time or both as they are written. -/
  | datetime (text : String)
  /-- An array. Headers in double brackets add to the arrays that they opened themselves. -/
  | array (ofTables : Bool) (items : List Value)
  | table (kind : TableKind) (entries : List (String × Value))
  deriving Inhabited

/-- The entries of a table. -/
abbrev Entries := List (String × Value)

def Entries.find? (entries : Entries) (key : String) : Option Value := entries.lookup key

/-- Sets a key in its place, or after the others. -/
def Entries.set (entries : Entries) (key : String) (value : Value) : Entries :=
  match entries with
  | [] => [(key, value)]
  | (other, old) :: rest =>
    if other = key then (key, value) :: rest else (other, old) :: Entries.set rest key value

end ClassAtlas.Toml
