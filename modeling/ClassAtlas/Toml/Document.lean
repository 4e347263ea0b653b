import ClassAtlas.Toml.Quoted

/-!
# TOML documents

A document is a sequence of lines: headers, which open tables, and keys with values, which go into
the table that is open. A table is opened by a header once at most; dotted keys add only to tables
that dotted keys made; inline tables and plain arrays are closed.
-/

namespace ClassAtlas.Toml

/-! ## Entering values -/

/-- A change of a table; it fails if the table does not allow it. -/
abbrev Change := TableKind → Entries → Option (TableKind × Entries)

/-- Changes the table at the end of a path. Missing tables on the way are made. -/
def changeAt (byDottedKey : Bool) (path : List String) (change : Change) : Change :=
  match path with
  | [] => change
  | key :: path => fun kind entries =>
    match entries.find? key with
    | none => do
      let made := if byDottedKey then TableKind.dotted else TableKind.implied
      let (newKind, newEntries) ← changeAt byDottedKey path change made []
      return (kind, entries.set key (.table newKind newEntries))
    | some (.table oldKind oldEntries) =>
      if oldKind = .inlined || (byDottedKey && oldKind = .header) then none
      else do
        let (newKind, newEntries) ← changeAt byDottedKey path change oldKind oldEntries
        return (kind, entries.set key (.table newKind newEntries))
    | some (.array true items) =>
      match items.getLast? with
      | some (.table oldKind oldEntries) => do
        let (newKind, newEntries) ← changeAt byDottedKey path change oldKind oldEntries
        return (kind,
          entries.set key (.array true (items.dropLast ++ [.table newKind newEntries])))
      | _ => none
    | some _ => none

/-- Enters a value under a key that is still free. -/
def enter (key : String) (value : Value) : Change := fun kind entries =>
  match entries.find? key with
  | some _ => none
  | none => some (kind, entries.set key value)

/-- Enters a value under a dotted key. Its last table has to be one that dotted keys made. -/
def assign (path : List String) (key : String) (value : Value) : Change :=
  changeAt true path fun kind entries =>
    if decide (kind = .dotted) = !path.isEmpty then enter key value kind entries else none

/-- Opens the table of a header. -/
def openTable (key : String) : Change := fun kind entries =>
  match entries.find? key with
  | none => some (kind, entries.set key (.table .header []))
  | some (.table .implied old) => some (kind, entries.set key (.table .header old))
  | some _ => none

/-- Opens a new item of an array of tables. -/
def openItem (key : String) : Change := fun kind entries =>
  match entries.find? key with
  | none => some (kind, entries.set key (.array true [.table .header []]))
  | some (.array true items) =>
    some (kind, entries.set key (.array true (items ++ [.table .header []])))
  | some _ => none

/-! ## Keys and values -/

def isBareKeyChar (c : Char) : Bool := c.isAlphanum || c = '_' || c = '-'

/-- The text after blanks. -/
def blanks : Scan Unit := fun text => some ((), text.dropWhile isBlank)

def scanSimpleKey : Scan String := fun text =>
  match text.span isBareKeyChar with
  | ([], _) => scanLineString text
  | (key, rest) => some (String.ofList key, rest)

/-- Values may be nested so deep, and keys may have so many parts. -/
def maxDepth : Nat := 80

/-- The parts of a key, at most `bound`. -/
def scanKeyParts : Nat → Scan (List String)
  | 0 => fun _ => none
  | bound + 1 => do
    blanks
    let first ← scanSimpleKey
    blanks
    fun text =>
      match text with
      | '.' :: rest => (scanKeyParts bound rest).map fun (others, rest) => (first :: others, rest)
      | _ => some ([first], text)

/-- A key: the path in front of it and its last part. -/
def scanKey : Scan (List String × String) := fun text => do
  let (parts, rest) ← scanKeyParts maxDepth text
  let last ← parts.getLast?
  return ((parts.dropLast, last), rest)

/-- The text after a comment, if there is one. -/
def skipComment : List Char → Option (List Char)
  | '#' :: rest =>
    match rest.dropWhile isPlain with
    | [] => some []
    | after => if (newline? after).isSome then some after else none
  | text => some text

/-- The text after blanks, comments and line breaks. -/
def skipBlankLines : Nat → List Char → Option (List Char)
  | 0, text => if text.isEmpty then some [] else none
  | fuel + 1, text => do
    let text ← skipComment (text.dropWhile isBlank)
    match newline? text with
    | some rest => skipBlankLines fuel rest
    | none => some text

def blankLines : Scan Unit := fun text =>
  (skipBlankLines (text.length + 1) text).map fun rest => ((), rest)

def isScalarChar (c : Char) : Bool :=
  c.isAlphanum || c = '_' || c = '-' || c = '+' || c = '.' || c = ':'

/-- A scalar without quotes. A blank may part a date from its time. -/
def scanScalar : Scan Value := fun text =>
  let (word, rest) := text.span isScalarChar
  let (word, rest) :=
    match afterDate? word, rest with
    | some [], ' ' :: d :: more =>
      if d.isDigit then
        let (time, rest) := (d :: more).span isScalarChar
        (word ++ ' ' :: time, rest)
      else (word, rest)
    | _, _ => (word, rest)
  (scalar? word).map fun value => (value, rest)

section Rules

variable (scanValue : Scan Value)

/-- The items of an array after its bracket; `bound` is more than their number. -/
def scanItems : Nat → Scan (List Value)
  | 0 => fun _ => none
  | bound + 1 => do
    blankLines
    if (← Scan.peek) = ']' then
      Scan.expect ']'
      return []
    else
      let first ← scanValue
      blankLines
      if (← Scan.peek) = ',' then
        Scan.expect ','
        let others ← scanItems bound
        return first :: others
      else
        Scan.expect ']'
        return [first]

/-- A key, an equals sign and a value, with `gap` around the sign. -/
def scanPair (gap : Scan Unit) : Scan ((List String × String) × Value) := do
  let key ← scanKey
  gap
  Scan.expect '='
  gap
  let value ← scanValue
  return (key, value)

/-- The pairs of an inline table after its brace; `bound` is more than their number. -/
def scanPairs : Nat → Scan (List ((List String × String) × Value))
  | 0 => fun _ => none
  | bound + 1 => do
    blankLines
    if (← Scan.peek) = '\x7d' then
      Scan.expect '\x7d'
      return []
    else
      let first ← scanPair scanValue blankLines
      blankLines
      if (← Scan.peek) = ',' then
        Scan.expect ','
        let others ← scanPairs bound
        return first :: others
      else
        Scan.expect '\x7d'
        return [first]

/-- The table that pairs between braces make. -/
def inlineTable? (pairs : List ((List String × String) × Value)) : Option Value :=
  (pairs.foldlM (fun (table : TableKind × Entries) pair =>
      assign pair.1.1 pair.1.2 pair.2 table.1 table.2) (.header, [])).map fun table =>
    .table .inlined table.2

end Rules

/-- A value that holds no others. -/
def scanPlain : Scan Value := fun text =>
  match text with
  | '"' :: _ | '\'' :: _ => (scanString text).map fun (s, rest) => (.string s, rest)
  | _ => scanScalar text

/-- A value with arrays and inline tables nested at most `depth` deep. -/
def scanValueWithin : Nat → Scan Value
  | 0 => scanPlain
  | depth + 1 => fun text =>
    match text with
    | '[' :: rest =>
      (scanItems (scanValueWithin depth) rest.length rest).map fun (items, rest) =>
        (.array false items, rest)
    | '\x7b' :: rest => do
      let (pairs, rest) ← scanPairs (scanValueWithin depth) rest.length rest
      let value ← inlineTable? pairs
      return (value, rest)
    | _ => scanPlain text

def scanValue : Scan Value := scanValueWithin maxDepth

/-! ## Lines -/

inductive Header where
  | table (path : List String) (key : String)
  | item (path : List String) (key : String)

/-- What a line says. -/
inductive Line where
  | header (opened : Header)
  | pair (path : List String) (key : String) (value : Value)

def scanLine : Scan Line := fun text =>
  match text with
  | '[' :: '[' :: rest => do
    let ((path, key), rest) ← scanKey rest
    match rest with
    | ']' :: ']' :: rest => some (.header (.item path key), rest)
    | _ => none
  | '[' :: rest => do
    let ((path, key), rest) ← scanKey rest
    match rest with
    | ']' :: rest => some (.header (.table path key), rest)
    | _ => none
  | _ => do
    let (((path, key), value), rest) ← scanPair scanValue blanks text
    return (.pair path key value, rest)

/-- The lines of a document. After each, its text line ends. -/
def scanLines : Nat → List Char → Option (List Line)
  | 0, _ => none
  | bound + 1, text => do
    let text ← skipBlankLines (text.length + 1) text
    if text.isEmpty then
      return []
    else
      let (line, rest) ← scanLine text
      let rest ← skipComment (rest.dropWhile isBlank)
      if rest.isEmpty || (newline? rest).isSome then
        let others ← scanLines bound rest
        return line :: others
      else
        none

/-- The document so far and the path to the open table. -/
structure Draft where
  entries : Entries
  openPath : List String

def Draft.add (draft : Draft) (line : Line) : Option Draft :=
  match line with
  | .header (.table path key) => do
    let (_, entries) ← changeAt false path (openTable key) .header draft.entries
    return { entries, openPath := path ++ [key] }
  | .header (.item path key) => do
    let (_, entries) ← changeAt false path (openItem key) .header draft.entries
    return { entries, openPath := path ++ [key] }
  | .pair path key value => do
    let (_, entries) ← changeAt false draft.openPath (assign path key value) .header draft.entries
    return { draft with entries }

/-- The table that a text describes. A byte order mark in front is skipped. -/
def parse (text : String) : Option Entries := do
  let characters :=
    match text.toList with
    | '\uFEFF' :: rest => rest
    | characters => characters
  let lines ← scanLines (characters.length + 1) characters
  let draft ← lines.foldlM Draft.add { entries := [], openPath := [] }
  return draft.entries

end ClassAtlas.Toml
