import ClassAtlas.Disk
import ClassAtlas.Glob.Match

/-!
# Searching a disk by a pattern

A pattern is matched component by component. A component without wildcards is looked up, any other
is compared with the children of a directory, and `**` also goes through the directories below.
-/

namespace ClassAtlas

namespace Glob

def Token.plain? : Token → Option Char
  | literal char => some char
  | _ => none

/-- The text that a pattern without wildcards stands for. -/
def Pattern.plain? (pattern : Pattern) : Option String :=
  (pattern.tokens.mapM Token.plain?).map String.ofList

def Pattern.isRecursive (pattern : Pattern) : Bool := pattern.tokens.contains .anyComponents

/-- `.` and `..` among the children of a directory are meant only by patterns with a dot in
front. -/
def Pattern.dots (pattern : Pattern) : List String :=
  if pattern.tokens.head? = some (.literal '.') then [".", ".."].filter pattern.accepts else []

section Levels

variable (disk : Disk)
/- The search on the level below. -/
variable (below : List Pattern → Path → List Path)

/-- The path, if no patterns are left, and otherwise what they lead to below it. -/
def onwards (patterns : List Pattern) (path : Path) : List Path :=
  if patterns.isEmpty then [path] else below patterns path

/-- What the patterns find at a path, the first of them for its own name. -/
def named (patterns : List Pattern) (path : Path) : List Path :=
  match patterns, path.fileName? with
  | pattern :: patterns, some name =>
    if pattern.accepts name then onwards below patterns path else []
  | _, _ => []

/-- What the patterns find at and below a child of a directory. -/
def child (patterns : List Pattern) (path : Path) : List Path :=
  match patterns with
  | [] => []
  | pattern :: others =>
    if pattern.isRecursive then
      let others := others.dropWhile (·.isRecursive)
      let deeper := if disk.isDirectory path then below (pattern :: others) path else []
      let here :=
        if others.isEmpty then (if disk.isDirectory path then [path] else [])
        else named below others path
      deeper ++ here
    else named below patterns path

/-- What the patterns find below a path. -/
def level (patterns : List Pattern) (path : Path) : List Path :=
  match patterns with
  | [] => []
  | pattern :: others =>
    match pattern.plain? with
    | some name =>
      let next := path.join ⟨name⟩
      let isThere :=
        if name = "." ∨ name = ".." then disk.isDirectory path
        else (disk.find next).isOk || (disk.findItself next).isOk
      if isThere then onwards below others next else []
    | none =>
      match disk.children path with
      | .ok children =>
        children.flatMap (child disk below patterns) ++
          pattern.dots.flatMap fun name => onwards below others (path.join ⟨name⟩)
      | .error _ => []

end Levels

/-- What the patterns find, at most `levels` levels down. -/
def search (disk : Disk) : Nat → List Pattern → Path → List Path
  | 0 => fun _ _ => []
  | levels + 1 => level disk (search disk levels)

end Glob

/-- More levels than any search has: links are followed a limited number of times, and between two
of them no more levels follow than the disk has entries. -/
def Disk.searchBound (disk : Disk) (pattern : String) : Nat :=
  (Disk.maxLinks + 2) * (disk.root.size + 1) + pattern.length

/-- The paths that an absolute pattern describes, from the root on. The whole pattern has to be one,
and so has each of its components. -/
def Disk.glob (disk : Disk) (pattern : String) : Except Glob.PatternError (List Path) := do
  let _ ← Glob.Pattern.compile pattern
  let parts := (pattern.toList.splitOn '/').filter (· ≠ [])
  let patterns ← parts.mapM fun part => Glob.Pattern.compile (String.ofList part)
  return Glob.search disk (disk.searchBound pattern) patterns ⟨"/"⟩

end ClassAtlas
