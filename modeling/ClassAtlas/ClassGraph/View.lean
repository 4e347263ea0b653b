import ClassAtlas.ClassGraph

/-!
# Views of a class graph

Looking up classes and packages by name, and reading the graph forwards (what a class depends on)
and backwards (what depends on it). All lists are in name order, and dependencies between the same
two classes in the order of kinds.
-/

namespace ClassAtlas

namespace Node

/-- Of a stub only the name is known: what follows the last `$` counts as its simple name. -/
def simpleName : Node → String
  | imported item => item.decl.simpleName
  | external name =>
    let part := ClassName.simplePart name
    match splitAtLast '$' part.toList with
    | some (_, inner) => String.ofList inner
    | none => part

def packageName (node : Node) : String := ClassName.package node.name

end Node

/-- A reference of an imported class, the origin, to another class. -/
structure Dependency where
  origin : String
  target : String
  kind : DependencyKind
  deriving Repr, DecidableEq, Inhabited

def Dependency.display (dependency : Dependency) : String :=
  dependency.origin ++ " " ++ dependency.kind.label ++ " " ++ dependency.target

namespace ClassGraph

/-- The class of that name, imported or external. -/
def lookup (graph : ClassGraph) (name : String) : Option Node := graph.nodes.find? name

/-- The imported class of that name. -/
def get? (graph : ClassGraph) (name : String) : Option Node :=
  (graph.lookup name).filter Node.isResolved

/-- The stub of that name. -/
def external? (graph : ClassGraph) (name : String) : Option Node :=
  (graph.lookup name).filter fun node => !node.isResolved

def contains (graph : ClassGraph) (name : String) : Bool := (graph.get? name).isSome

/-- The nodes of one sort, in name order. -/
def sortedNodes (graph : ClassGraph) (resolved : Bool) : List Node :=
  (graph.nodes.items.toList.filter (·.isResolved = resolved)).mergeSort fun a b =>
    decide (a.name ≤ b.name)

/-- The imported classes. -/
def classes (graph : ClassGraph) : List Node := graph.sortedNodes true

def externalClasses (graph : ClassGraph) : List Node := graph.sortedNodes false

def classNames (graph : ClassGraph) : List String := graph.classes.map Node.name

/-- The number of imported classes. -/
def size (graph : ClassGraph) : Nat := graph.nodes.items.toList.countP Node.isResolved

def isEmpty (graph : ClassGraph) : Bool := graph.size = 0

def dependencyCount (graph : ClassGraph) : Nat := graph.edges.size

/-- Whether both names denote one class of the graph. -/
def sameClass (graph : ClassGraph) (first second : String) : Bool :=
  (graph.lookup first).isSome && first = second

/-! ## Relations of a class -/

def superclass? (graph : ClassGraph) (node : Node) : Option Node :=
  (node.decl?.bind (·.superclass)).bind graph.lookup

/-- The interfaces, in the order of the declaration. -/
def interfaces (graph : ClassGraph) (node : Node) : List Node :=
  ((node.decl?.map (·.interfaces)).getD []).filterMap graph.lookup

def enclosingClass? (graph : ClassGraph) (node : Node) : Option Node :=
  (node.decl?.bind (·.enclosingClass)).bind graph.lookup

/-- The order of a name and a kind. -/
def leKey (first second : String × DependencyKind) : Bool :=
  decide (first.1 < second.1) ||
    (first.1 = second.1 && decide (first.2.rank ≤ second.2.rank))

/-- The names that an edge joins. -/
def dependency? (graph : ClassGraph) (edge : Edge) : Option Dependency := do
  let origin ← graph.nodes.items[edge.origin]?
  let target ← graph.nodes.items[edge.target]?
  return { origin := origin.name, target := target.name, kind := edge.kind }

/-- The dependencies that some edges stand for. -/
def dependenciesWhere (graph : ClassGraph) (choose : Edge → Bool) : List Dependency :=
  (graph.edges.toList.filter choose).filterMap graph.dependency?

/-- What the class refers to. -/
def dependenciesFrom (graph : ClassGraph) (name : String) : List Dependency :=
  (graph.dependenciesWhere fun edge => some edge.origin = graph.nodes.place? name).mergeSort
    fun a b => leKey (a.target, a.kind) (b.target, b.kind)

/-- The imported classes that refer to the class. Of a stub this is not told. -/
def dependents (graph : ClassGraph) (node : Node) : List Dependency :=
  if node.isResolved then
    ((graph.dependenciesWhere fun edge => some edge.target = graph.nodes.place? node.name).filter
      fun dependency => graph.contains dependency.origin).mergeSort
        fun a b => leKey (a.origin, a.kind) (b.origin, b.kind)
  else []

/-- The classes that refer to the class in one role. -/
def dependentsOfKind (graph : ClassGraph) (node : Node) (kind : DependencyKind) : List String :=
  ((graph.dependents node).filter (·.kind = kind)).map Dependency.origin

/-- The imported classes that extend the class directly. -/
def subclasses (graph : ClassGraph) (node : Node) : List String :=
  graph.dependentsOfKind node .extending

/-- The imported classes that implement the interface directly. -/
def implementations (graph : ClassGraph) (node : Node) : List String :=
  graph.dependentsOfKind node .implementing

/-! ## Packages -/

/-- The package with this name relative to a package. -/
def packageBelow (package : Package) (relative : String) : Except ImportError Package :=
  orError (.packageNotFound (joinNames package.fullName relative)) (package.find? relative)

def package (graph : ClassGraph) (name : String) : Except ImportError Package :=
  packageBelow graph.root name

def containsPackage (graph : ClassGraph) (name : String) : Bool := (graph.root.find? name).isSome

/-- Whether both names denote one package. The first of them that denotes none is reported. -/
def samePackage (graph : ClassGraph) (first second : String) : Except ImportError Bool := do
  let _ ← graph.package first
  let _ ← graph.package second
  return Package.path first = Package.path second

/-- The package that holds an imported class. -/
def packageOf? (graph : ClassGraph) (node : Node) : Option Package :=
  if node.isResolved then graph.root.find? node.packageName else none

def parent? (graph : ClassGraph) (package : Package) : Option Package :=
  package.parentName?.bind graph.root.find?

/-- The imported classes directly in the package. -/
def classesIn (graph : ClassGraph) (package : Package) : List Node :=
  package.classes.filterMap graph.get?

/-- The imported classes of the package and of all packages below it. -/
def allClassesIn (graph : ClassGraph) (package : Package) : List Node :=
  package.allClasses.filterMap graph.get?

/-- Whether the package holds a class of that simple name. -/
def hasClass (package : Package) (simpleName : String) : Bool :=
  package.containsClass (joinNames package.fullName simpleName)

/-- The class that carries the annotations of the package. -/
def packageInfo? (graph : ClassGraph) (package : Package) : Option Node :=
  graph.get? (joinNames package.fullName "package-info")

end ClassGraph

end ClassAtlas
