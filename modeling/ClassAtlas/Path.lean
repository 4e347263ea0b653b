import ClassAtlas.Text.Split

/-!
# Paths

A path keeps the text it was written with. Paths are compared by their components: repeated
slashes, `.` inside a path and a trailing slash do not matter, while `..` is a component like any
other and is never resolved.
-/

namespace ClassAtlas

structure Path where
  text : String
  deriving Repr, DecidableEq, Inhabited

namespace Path

/-- A step of a path. -/
inductive Component where
  | root
  /-- The `.` in front of a relative path. -/
  | current
  | parent
  | name (text : String)
  deriving Repr, DecidableEq, Inhabited

namespace Component

def text : Component → String
  | root => "/"
  | current => "."
  | parent => ".."
  | name text => text

/-- A key whose order is root, `.`, `..`, then names. -/
def sortKey : Component → String
  | root => ""
  | current => "\x00"
  | parent => "\x01"
  | name text => "\x02" ++ text

end Component

def isAbsolute (path : Path) : Bool := path.text.toList.head? = some '/'

def isEmpty (path : Path) : Bool := path.text.isEmpty

/-- The component of a part between slashes, if it counts. -/
def componentOfPart : List Char → Option Component
  | [] | ['.'] => none
  | ['.', '.'] => some .parent
  | part => some (.name (String.ofList part))

def components (path : Path) : List Component :=
  match path.isAbsolute, path.text.toList.splitOn '/' with
  | true, parts => .root :: parts.filterMap componentOfPart
  | false, ['.'] :: parts => .current :: parts.filterMap componentOfPart
  | false, parts => parts.filterMap componentOfPart

/-- Whether two texts denote the same path. -/
def same (first second : Path) : Bool := first.components = second.components

/-- Component by component, a path before its extensions. -/
def sortKey (path : Path) : List String := path.components.map Component.sortKey

def le (first second : Path) : Bool := !decide (second.sortKey < first.sortKey)

/-- A step further down. An absolute `rest` replaces the path. -/
def join (path rest : Path) : Path :=
  if rest.isAbsolute || path.isEmpty then rest
  else if path.text.toList.getLast? = some '/' then ⟨path.text ++ rest.text⟩
  else ⟨path.text ++ "/" ++ rest.text⟩

/-- A path that is written with these components. -/
def ofComponents (components : List Component) : Path :=
  components.foldl (fun path component => path.join ⟨component.text⟩) ⟨""⟩

/-- The path against a working directory. Its components stay as they are but for a leading `.`.
Two slashes in front, no more, are kept apart from one, and so is a slash at the end. -/
def absolute (workingDirectory path : Path) : Path :=
  if path.isEmpty then path
  else
    let names := path.components.filter fun c => c ≠ .root ∧ c ≠ .current
    let twoSlashes :=
      "//".toList.isPrefixOf path.text.toList && !"///".toList.isPrefixOf path.text.toList
    let start : Path :=
      if twoSlashes then ⟨"//"⟩ else if path.isAbsolute then ⟨"/"⟩ else workingDirectory
    let plain := names.foldl (fun path c => path.join ⟨c.text⟩) start
    if path.text.toList.getLast? = some '/' then plain.join ⟨""⟩ else plain

/-- The last component, if it is a name. -/
def fileName? (path : Path) : Option String :=
  match path.components.getLast? with
  | some (.name text) => some text
  | _ => none

/-- The file name cut at its last dot. A dot in front starts no extension. -/
def stemAndExtension? (path : Path) : Option (String × Option String) :=
  path.fileName?.map fun name =>
    match splitAtLast '.' name.toList with
    | some (c :: stem, extension) => (String.ofList (c :: stem), some (String.ofList extension))
    | _ => (name, none)

def stem? (path : Path) : Option String := path.stemAndExtension?.map Prod.fst

def extension? (path : Path) : Option String := path.stemAndExtension?.bind Prod.snd

/-- Whether the extension is `word`, in any case of its ASCII letters. -/
def hasExtension (path : Path) (word : String) : Bool :=
  match path.extension? with
  | some extension => extension.toList.map Char.toLower = word.toList
  | none => false

/-- The components below `root`, if the path is at or below it. -/
def componentsBelow? (path root : Path) : Option (List Component) :=
  root.components.isPrefixOf? path.components

def isWithin (path root : Path) : Bool := root.components.isPrefixOf path.components

/-- The text without slashes and lone dots at its end, the root excepted. -/
def trimEnd (reversed : List Char) : List Char :=
  match reversed with
  | ['/'] => ['/']
  | '/' :: rest => trimEnd rest
  | '.' :: '/' :: rest => trimEnd ('/' :: rest)
  | _ => reversed

/-- The path without its last component; the root and the empty path have none. -/
def parent? (path : Path) : Option Path :=
  match path.components.getLast? with
  | none | some .root => none
  | some _ =>
    let lastDropped := (trimEnd path.text.toList.reverse).dropWhile (· ≠ '/')
    some ⟨String.ofList (trimEnd lastDropped).reverse⟩

end Path

end ClassAtlas
