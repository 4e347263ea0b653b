import ClassAtlas.ClassName

/-!
# Packages

Packages form a tree. A package knows the classes directly in it and its subpackages, both in name
order and without repeats. The parent of a package is found by cutting its full name, so the tree
holds no upward references. The root is the default package, which has the empty name.
-/

namespace ClassAtlas

/-- Puts a text in its place of an ascending list, unless it is there. -/
def insertAscending (text : String) : List String → List String
  | [] => [text]
  | other :: others =>
    if text = other then other :: others
    else if text < other then text :: other :: others
    else other :: insertAscending text others

/-- A name below a parent's name. An empty part takes its dot with it. -/
def joinNames (parent child : String) : String :=
  if parent.isEmpty then child
  else if child.isEmpty then parent
  else parent ++ "." ++ child

/-- A package with its last name segment, its full name, the names of its classes and its
subpackages. -/
inductive Package where
  | mk (segment fullName : String) (classes : List String) (subpackages : List Package)
  deriving Inhabited

namespace Package

def segment : Package → String
  | mk segment _ _ _ => segment

def fullName : Package → String
  | mk _ fullName _ _ => fullName

/-- The classes directly in the package. -/
def classes : Package → List String
  | mk _ _ classes _ => classes

def subpackages : Package → List Package
  | mk _ _ _ subpackages => subpackages

def empty : Package := mk "" "" [] []

/-- A new subpackage of the package with this full name. -/
def childOf (fullName segment : String) : Package :=
  mk segment (if fullName.isEmpty then segment else fullName ++ "." ++ segment) [] []

def isRoot (package : Package) : Bool := package.fullName.isEmpty

/-- The full name of the package around; none for the root. -/
def parentName? (package : Package) : Option String :=
  if package.isRoot then none else some (ClassName.package package.fullName)

/-- Revises the package with this segment, or a new one in its place. -/
def revise (segment : String) (revision : Package → Package) (fresh : Package) :
    List Package → List Package
  | [] => [revision fresh]
  | package :: others =>
    if package.segment = segment then revision package :: others
    else if segment < package.segment then revision fresh :: package :: others
    else package :: revise segment revision fresh others

/-- Adds a class to the package at this path, with the packages on the way. -/
def insertAt (path : List String) (name : String) (package : Package) : Package :=
  match path, package with
  | [], mk segment fullName classes subpackages =>
    mk segment fullName (insertAscending name classes) subpackages
  | step :: path, mk segment fullName classes subpackages =>
    mk segment fullName classes
      (revise step (insertAt path name) (childOf fullName step) subpackages)

/-- The segments of a dotted name; the empty name has none. -/
def path (name : String) : List String :=
  if name.isEmpty then [] else (name.toList.splitOn '.').map String.ofList

/-- Adds a class to its package. -/
def insert (root : Package) (name : String) : Package :=
  root.insertAt (path (ClassName.package name)) name

/-- The tree of the packages of these classes. -/
def ofClasses (names : List String) : Package := names.foldl insert empty

/-- The package that segments lead to. -/
def descend (package : Package) : List String → Option Package
  | [] => some package
  | step :: path =>
    match package.subpackages.find? (·.segment = step) with
    | some next => next.descend path
    | none => none

/-- The package with this name relative to the package. -/
def find? (package : Package) (relative : String) : Option Package :=
  package.descend (path relative)

mutual

/-- The package and all packages below it, each before those below it. -/
def preorder : Package → List Package
  | mk segment fullName classes subpackages =>
    mk segment fullName classes subpackages :: preorderAll subpackages

def preorderAll : List Package → List Package
  | [] => []
  | package :: others => package.preorder ++ preorderAll others

end

/-- The classes of the package and of all packages below it, in name order. -/
def allClasses (package : Package) : List String :=
  (package.preorder.flatMap classes).mergeSort (fun a b => decide (a ≤ b))

def containsClass (package : Package) (name : String) : Bool := package.classes.contains name

end Package

end ClassAtlas
