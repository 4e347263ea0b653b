import ClassAtlas.Path
import ClassAtlas.Text.Utf8

/-!
# Disks

A disk is a tree of files, directories and symbolic links together with a working directory.
Reading never changes it, so every question about it is a function of the tree. Paths are followed
step by step, links included; what cannot be followed is a fault.
-/

namespace ClassAtlas

/-- What stands under a name on a disk. -/
inductive FileTree where
  | file (bytes : Bytes)
  /-- A symbolic link, with the text it points to. -/
  | link (target : String)
  | directory (children : List (String × FileTree))
  deriving Inhabited

structure Disk where
  root : FileTree
  workingDirectory : Path
  deriving Inhabited

/-- Why a path cannot be followed or read. -/
inductive DiskFault where
  | notFound
  | notDirectory
  | isDirectory
  | alreadyExists
  /-- A path or a name in it has too many bytes. -/
  | nameTooLong
  | tooManyLinks
  /-- The text of a path holds a NUL. -/
  | nulInPath
  | notText
  deriving Repr, DecidableEq, Inhabited

def DiskFault.message : DiskFault → String
  | notFound => "No such file or directory (os error 2)"
  | notDirectory => "Not a directory (os error 20)"
  | isDirectory => "Is a directory (os error 21)"
  | alreadyExists => "File exists (os error 17)"
  | nameTooLong => "File name too long (os error 36)"
  | tooManyLinks => "Too many levels of symbolic links (os error 40)"
  | nulInPath => "file name contained an unexpected NUL byte"
  | notText => "stream did not contain valid UTF-8"

namespace FileTree

def isDirectory : FileTree → Bool
  | directory _ => true
  | _ => false

def isFile : FileTree → Bool
  | file _ => true
  | _ => false

mutual

/-- The number of files, links and directories. -/
def size : FileTree → Nat
  | file _ | link _ => 1
  | directory children => sizeAll children + 1

def sizeAll : List (String × FileTree) → Nat
  | [] => 0
  | (_, child) :: others => child.size + sizeAll others

end

end FileTree

namespace Disk

/-- A step from one directory to another. -/
inductive Step where
  | stay
  | up
  | into (name : String)
  deriving Repr, DecidableEq

/-- The steps of a path, but for what a slash at the end asks. -/
def plainSteps (path : String) : List Step :=
  ((path.toList.splitOn '/').filter (· ≠ [])).map fun part =>
    if part = ['.'] then .stay else if part = ['.', '.'] then .up else .into (String.ofList part)

def endsWithSlash (path : String) : Bool := path.toList.getLast? = some '/'

/-- The steps of a path. A slash at the end asks for a directory. -/
def steps (path : String) : List Step :=
  if endsWithSlash path then plainSteps path ++ [.stay] else plainSteps path

/-- The most bytes that a name may have. -/
def maxNameSize : Nat := 255

/-- Where steps have led: the names from the root, the last first, and what is there. -/
abbrev Trail := List (String × FileTree)

namespace Trail

/-- What is at the end, in the tree of a root. -/
def tree (root : FileTree) (trail : Trail) : FileTree := (trail.head?.map Prod.snd).getD root

def names (trail : Trail) : List String := trail.reverse.map Prod.fst

end Trail

/-- Where the steps lead. Links on the way are followed, at most `links` of them; a link at the end
is followed on demand. -/
def follow (root : FileTree) (followLast : Bool) (links : Nat) (trail : Trail) :
    List Step → Except DiskFault Trail
  | [] => .ok trail
  | step :: rest =>
    match trail.tree root, step with
    | .directory _, .stay => follow root followLast links trail rest
    | .directory _, .up => follow root followLast links trail.tail rest
    | .directory children, .into name =>
      if maxNameSize < name.utf8ByteSize then .error .nameTooLong
      else
        match children.lookup name with
        | none => .error .notFound
        | some (.link target) =>
          if rest = [] ∧ !followLast then .ok ((name, .link target) :: trail)
          else
            match links with
            | 0 => .error .tooManyLinks
            | links + 1 =>
              if target.isEmpty then .error .notFound
              else
                let start := if (Path.mk target).isAbsolute then [] else trail
                follow root followLast links start (steps target ++ rest)
        | some tree => follow root followLast links ((name, tree) :: trail) rest
    | _, _ => .error .notDirectory
termination_by rest => (links, rest.length)

/-- The most links that one path may lead through. -/
def maxLinks : Nat := 40

/-- The text of a path has less bytes than this. -/
def pathSizeLimit : Nat := 4096

/-- A path as the disk is asked for it, from the root. -/
def asked (disk : Disk) (path : Path) : Except DiskFault Path :=
  if path.text.toList.contains '\x00' then .error .nulInPath
  else if path.isEmpty then .error .notFound
  else if pathSizeLimit ≤ path.text.utf8ByteSize then .error .nameTooLong
  else .ok (disk.workingDirectory.join path)

/-- Where a path leads. -/
def locate (disk : Disk) (path : Path) (followLast : Bool) : Except DiskFault Trail := do
  follow disk.root followLast maxLinks [] (steps (← disk.asked path).text)

/-- What a path leads to. -/
def find (disk : Disk) (path : Path) : Except DiskFault FileTree :=
  (disk.locate path true).map (Trail.tree disk.root)

/-- What stands under a path itself, be it a link. -/
def findItself (disk : Disk) (path : Path) : Except DiskFault FileTree :=
  (disk.locate path false).map (Trail.tree disk.root)

/-- The names from the root to what a path leads to. They tell directories apart. -/
def identity? (disk : Disk) (path : Path) : Option (List String) :=
  (disk.locate path true).toOption.map Trail.names

def exists? (disk : Disk) (path : Path) : Bool := (disk.find path).isOk

def isDirectory (disk : Disk) (path : Path) : Bool := (disk.find path).toOption.any (·.isDirectory)

def isFile (disk : Disk) (path : Path) : Bool := (disk.find path).toOption.any (·.isFile)

/-- The content of an opened file. Directories can be opened and not be read. -/
def contentOf : FileTree → Except DiskFault Bytes
  | .file bytes => .ok bytes
  | _ => .error .isDirectory

def read (disk : Disk) (path : Path) : Except DiskFault Bytes := do
  contentOf (← disk.find path)

/-- The content of a text file. -/
def readText (disk : Disk) (path : Path) : Except DiskFault String := do
  match (← disk.read path).utf8? with
  | some text => .ok text
  | none => .error .notText

/-- The paths of the children of a directory, by file name. -/
def children (disk : Disk) (path : Path) : Except DiskFault (List Path) := do
  match (← disk.find path) with
  | .directory children =>
    return ((children.map Prod.fst).mergeSort fun a b => decide (a ≤ b)).map fun name =>
      path.join ⟨name⟩
  | _ => .error .notDirectory

end Disk

end ClassAtlas
