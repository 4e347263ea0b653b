/-!
# Reading text from the front

A scanner takes a value from the front of a text and leaves the rest, or refuses. Lists of items
are read up to a closing character or up to the end of the text; the length of the text bounds
their number, because every item that is read takes at least one character.
-/

namespace ClassAtlas

/-- A reader that takes a value from the front of a text, or refuses. -/
abbrev Scan := StateT (List Char) Option

namespace Scan

variable {α : Type}

/-- The next character, left where it is. -/
def peek : Scan Char := fun s =>
  match s with
  | [] => none
  | c :: _ => some (c, s)

def expect (c : Char) : Scan Unit := fun s =>
  match s with
  | [] => none
  | d :: rest => if d = c then some ((), rest) else none

/-- The text before the first of `stops`. It is not empty, and one of `stops` follows it. -/
def word (stops : List Char) : Scan (List Char) := fun s =>
  match s.takeWhile (· ∉ stops), s.dropWhile (· ∉ stops) with
  | [], _ | _, [] => none
  | w, rest => some (w, rest)

/-- At most `bound` items and the closing character. -/
def upToWithin (close : Char) (item : Scan α) : Nat → Scan (List α)
  | 0 => fun _ => none
  | bound + 1 => do
    if (← peek) = close then
      expect close
      return []
    else
      let first ← item
      let others ← upToWithin close item bound
      return first :: others

/-- Items up to the character `close`, which is taken too. -/
def upTo (close : Char) (item : Scan α) : Scan (List α) := fun s =>
  upToWithin close item s.length s

/-- At most `bound` items, after which no text is left. -/
def toEndWithin (item : Scan α) : Nat → Scan (List α)
  | 0 => fun s => if s.isEmpty then some ([], []) else none
  | bound + 1 => fun s =>
    if s.isEmpty then some ([], [])
    else do
      let (first, rest) ← item s
      let (others, rest) ← toEndWithin item bound rest
      return (first :: others, rest)

/-- Items to the end of the text. -/
def toEnd (item : Scan α) : Scan (List α) := fun s => toEndWithin item s.length s

/-- The value of a text that is read without rest. -/
def whole (scan : Scan α) (text : String) : Option α :=
  match scan text.toList with
  | some (a, []) => some a
  | _ => none

end Scan

end ClassAtlas
