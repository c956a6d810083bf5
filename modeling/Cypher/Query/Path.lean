/-
  Graph patterns — nodes joined by directed relationships.

  A path is a node followed by steps, each an edge and a node. A list of paths
  may have empty entries, so a path may have no node at all.

  * `Node`, `Relationship`, `Edge`, `Step` and `Path`;
  * `Edge.direction` reads the direction off the two marks beside an edge;
  * `Path.extend` appends a step; `Path.nodes`, `Path.edges`, `Path.finish` and
    `Path.boundNames` are what a path holds, in order.
-/
import Cypher.Chain.Basic

namespace Cypher

/-- Labels or relationship types, with any operators between them. -/
abbrev Labels := Chain Text

/-- A node `(name)` or `(name:labels)`; a colon may be followed by no label. -/
structure Node where
  name : Text
  labels : Option Labels
  deriving DecidableEq, Repr

/-- The labels of a node, without what separates them. -/
def Node.labelNames (node : Node) : List Text :=
  (node.labels.map Chain.operands).getD []

/-- A relationship `[name]` or `[name:types]`; a colon may be followed by no type. -/
structure Relationship where
  name : Text
  types : Option Labels
  deriving DecidableEq, Repr

/-- The types of a relationship, without what separates them. -/
def Relationship.typeNames (relationship : Relationship) : List Text :=
  (relationship.types.map Chain.operands).getD []

/-- The mark on the left of a relationship: `<-` or `-`. -/
inductive LeftMark where
  | arrow | line
  deriving DecidableEq, Repr

/-- The mark on the right of a relationship: `->` or `-`. -/
inductive RightMark where
  | arrow | line
  deriving DecidableEq, Repr

/-- A relationship between its two marks. -/
structure Edge where
  left : LeftMark
  relationship : Relationship
  right : RightMark
  deriving DecidableEq, Repr

/-- Where an edge points. -/
inductive Direction where
  | outgoing | incoming | undirected | bidirectional
  deriving DecidableEq, Repr

/-- The direction that the two marks of an edge express together. -/
def Edge.direction (edge : Edge) : Direction :=
  match edge.left, edge.right with
  | .line, .arrow => .outgoing
  | .arrow, .line => .incoming
  | .line, .line => .undirected
  | .arrow, .arrow => .bidirectional

/-- An edge and the node it leads to. -/
structure Step where
  edge : Edge
  node : Node
  deriving DecidableEq, Repr

/-- A start node and the steps from it; an empty path has neither. -/
structure Path where
  start : Option Node
  steps : List Step
  deriving DecidableEq, Repr

namespace Path

/-- The path without a node. -/
def empty : Path :=
  ⟨none, []⟩

/-- The path of one node. -/
def ofNode (node : Node) : Path :=
  ⟨some node, []⟩

/-- The path has no start node. -/
def isEmpty (path : Path) : Bool :=
  path.start.isNone

/-- Appends a step; an empty path stays as it is. -/
def extend (edge : Edge) (node : Node) (path : Path) : Path :=
  if path.isEmpty then path else ⟨path.start, path.steps ++ [⟨edge, node⟩]⟩

/-- The nodes in order. -/
def nodes (path : Path) : List Node :=
  path.start.toList ++ path.steps.map Step.node

/-- The edges in order. -/
def edges (path : Path) : List Edge :=
  path.steps.map Step.edge

/-- The last node. -/
def finish (path : Path) : Option Node :=
  (path.steps.getLast?.map Step.node).or path.start

/-- The names of nodes and relationships in order, repetitions included. -/
def boundNames (path : Path) : List Text :=
  path.start.toList.map Node.name ++
    path.steps.flatMap fun step => [step.edge.relationship.name, step.node.name]

/-! ## Laws -/

theorem extend_of_isEmpty {path : Path} (h : path.isEmpty = true) (e : Edge) (n : Node) :
    path.extend e n = path := by
  simp [extend, h]

theorem nodes_extend {path : Path} (h : path.isEmpty = false) (e : Edge) (n : Node) :
    (path.extend e n).nodes = path.nodes ++ [n] := by
  simp [extend, nodes, h]

theorem edges_extend {path : Path} (h : path.isEmpty = false) (e : Edge) (n : Node) :
    (path.extend e n).edges = path.edges ++ [e] := by
  simp [extend, edges, h]

end Path

end Cypher
