import ClassAtlas.ClassDecl.References
import ClassAtlas.ClassGraph.Roster
import ClassAtlas.Location
import ClassAtlas.Package
import ClassAtlas.Report

/-!
# Class graphs

The nodes of a class graph are the imported classes and, for names that imported classes refer to
without their being imported, external stubs. Its edges are the references between different
classes. A node is known by its place, and its place by its name. Building takes two steps: staging
keeps the first class of each name, and resolution walks the references of each staged class once.
It adds stubs and edges without following any reference further, so that cycles need no care.
-/

namespace ClassAtlas

/-- A declaration and, if known, where it was read. -/
structure SourcedClass where
  decl : ClassDecl
  source : Option Location
  deriving Inhabited

namespace SourcedClass

def name (item : SourcedClass) : String := item.decl.name

/-- The URI of the source, or words in its place. -/
def sourceText (item : SourcedClass) : String :=
  match item.source with
  | some location => location.uri
  | none => "<unknown location of " ++ item.name ++ ">"

end SourcedClass

/-- Staged classes, each name once, in the order in which they came. -/
abbrev Staging := Roster SourcedClass

namespace Staging

/-- Adds a class unless its name is taken; then the class is ignored and the error says so. -/
def stage (staged : Staging) (item : SourcedClass) : Staging × Option ImportError :=
  match staged.find? item.name with
  | some kept => (staged, some (.duplicateClass item.name kept.sourceText item.sourceText))
  | none => (staged.add item.name item, none)

/-- Adds classes one by one and gives the errors in order. -/
def stageAll (staged : Staging) : List SourcedClass → Staging × List ImportError
  | [] => (staged, [])
  | item :: items =>
    let (staged, error?) := staged.stage item
    let (staged, errors) := stageAll staged items
    (staged, error?.toList ++ errors)

end Staging

/-- A class of the graph. -/
inductive Node where
  | imported (item : SourcedClass)
  /-- A name that is referred to and was not imported. -/
  | external (name : String)
  deriving Inhabited

namespace Node

def name : Node → String
  | imported item => item.name
  | external name => name

def isResolved : Node → Bool
  | imported _ => true
  | external _ => false

def decl? : Node → Option ClassDecl
  | imported item => some item.decl
  | external _ => none

def source? : Node → Option Location
  | imported item => item.source
  | external _ => none

end Node

/-- A reference, from the place of an imported class to the place of another class. -/
structure Edge where
  origin : Nat
  target : Nat
  kind : DependencyKind
  deriving Repr, DecidableEq, Inhabited

/-- Nodes and the edges between their places. -/
structure Wiring where
  nodes : Roster Node := {}
  edges : Array Edge := #[]
  deriving Inhabited

namespace Wiring

/-- The place of a name. A name without a node gets a stub. -/
def resolve (nodes : Roster Node) (name : String) : Nat × Roster Node :=
  match nodes.place? name with
  | some place => (place, nodes)
  | none => (nodes.size, nodes.add name (.external name))

/-- Follows one reference of the class at a place. No edge leads back to it. -/
def link (wiring : Wiring) (origin : Nat) (reference : ClassReference) : Wiring :=
  let (target, nodes) := resolve wiring.nodes reference.target
  if target = origin then
    { wiring with nodes }
  else
    { nodes, edges := wiring.edges.push { origin, target, kind := reference.kind } }

/-- Follows all references of a class at a place. -/
def linkAll (wiring : Wiring) (references : List ClassReference) (origin : Nat) : Wiring :=
  references.foldl (link · origin ·) wiring

/-- The nodes of staged classes, each at the place where its class is staged. -/
def nodesOf (staged : List SourcedClass) : Roster Node :=
  staged.foldl (fun nodes item => nodes.add item.name (.imported item)) {}

/-- The nodes of staged classes and all that they refer to. -/
def ofStaged (staged : List SourcedClass) : Wiring :=
  staged.zipIdx.foldl (fun wiring (item, origin) => wiring.linkAll item.decl.references origin)
    { nodes := nodesOf staged }

end Wiring

structure ClassGraph extends Wiring where
  /-- The root of the package tree. -/
  root : Package
  report : Report
  deriving Inhabited

/-- The graph of staged classes. Its size goes into the report. -/
def ClassGraph.ofStaged (staged : Staging) (report : Report) : ClassGraph :=
  let wiring := Wiring.ofStaged staged.items.toList
  { wiring with
    root := Package.ofClasses
      ((wiring.nodes.items.toList.filter Node.isResolved).map Node.name)
    report := { report with
      classesImported := staged.size
      externalClasses := wiring.nodes.size - staged.size } }

end ClassAtlas
