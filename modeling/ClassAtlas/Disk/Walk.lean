import ClassAtlas.Disk

/-!
# Walking directories

A walk visits a directory and all that is below it, each directory before its children and the
children by name. Links are followed on demand; a link back to a directory around it is a fault and
is not entered. What cannot be visited is a finding of the walk and does not stop it.
-/

namespace ClassAtlas

/-- How to walk: whether to follow links, and how many levels to visit below the start. -/
structure WalkOptions where
  followLinks : Bool := false
  maxDepth : Option Nat := none
  deriving Repr, DecidableEq, Inhabited

/-- Something that a walk could not visit. -/
inductive WalkFault where
  | unreadable (path : Path) (cause : DiskFault)
  /-- A link to a directory around it. -/
  | loop (path ancestor : Path)
  deriving Repr, DecidableEq, Inhabited

namespace WalkFault

def path : WalkFault → Path
  | unreadable path _ | loop path _ => path

def message : WalkFault → String
  | unreadable path cause => "IO error for operation on " ++ path.text ++ ": " ++ cause.message
  | loop path ancestor =>
    "File system loop found: " ++ path.text ++ " points to an ancestor " ++ ancestor.text

end WalkFault

/-- What a walk visits: something that may be a file, or a fault. -/
inductive WalkItem where
  | visited (path : Path) (isFile : Bool)
  | fault (cause : WalkFault)
  deriving Repr, DecidableEq, Inhabited

namespace Disk

/-- A directory around the present one: its path in the walk and its identity. -/
structure Ancestor where
  path : Path
  identity : Option (List String)

/-- What a path of the walk stands for: the tree under it, or that behind it if it is a link that
is followed. A link to a directory around it is a loop. -/
def visit (disk : Disk) (options : WalkOptions) (ancestors : List Ancestor) (path : Path) :
    Except WalkFault FileTree :=
  match disk.findItself path with
  | .error cause => .error (.unreadable path cause)
  | .ok (.link target) =>
    if options.followLinks then
      match disk.find path with
      | .error cause => .error (.unreadable path cause)
      | .ok tree =>
        let identity := disk.identity? path
        match ancestors.find? (tree.isDirectory && ·.identity = identity) with
        | some ancestor => .error (.loop path ancestor.path)
        | none => .ok tree
    else .ok (.link target)
  | .ok tree => .ok tree

/-- The walk from one path on, with `levels` levels of directories to go. -/
def walkFrom (disk : Disk) (options : WalkOptions) (levels : Nat) (ancestors : List Ancestor)
    (path : Path) : List WalkItem :=
  match levels, disk.visit options ancestors path with
  | _, .error fault => [.fault fault]
  | 0, .ok tree => [.visited path tree.isFile]
  | levels + 1, .ok tree =>
    let enters := tree.isDirectory || (ancestors.isEmpty && disk.isDirectory path)
    let below :=
      if enters then
        match disk.children path with
        | .ok children =>
          let around := { path, identity := disk.identity? path } :: ancestors
          children.flatMap (disk.walkFrom options levels around)
        | .error cause => [.fault (.unreadable path cause)]
      else []
    .visited path tree.isFile :: below

/-- More levels than any walk has: a directory is entered through links at most once, and below
it no more levels follow than the disk has entries. -/
def levelBound (disk : Disk) : Nat := (disk.root.size + 1) * (disk.root.size + 1)

/-- The walk from a path. -/
def walk (disk : Disk) (options : WalkOptions) (start : Path) : List WalkItem :=
  disk.walkFrom options (min (options.maxDepth.getD disk.levelBound) disk.levelBound) [] start

end Disk

end ClassAtlas
