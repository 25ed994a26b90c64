/-!
# Graphs of keys

The graph that is stored and exported. Its nodes are functions named by their keys, each with the
keys of its callers and callees in the order of the edges.
-/

set_option autoImplicit false

namespace CallAtlas

/-- A function by its key, with one parent for every edge into it and one child for every
edge out of it. -/
structure GraphNode where
  key : String
  package : String
  name : String
  parents : List String := []
  children : List String := []
deriving DecidableEq, Repr, Inhabited

/-- A call between two keys. -/
structure GraphEdge where
  caller : String
  callee : String
deriving DecidableEq, Repr, Inhabited

/-- The text of an edge. -/
def GraphEdge.display (e : GraphEdge) : String := s!"{e.caller} -> {e.callee}"

/-- The node without its callers and callees. -/
def GraphNode.bare (n : GraphNode) : GraphNode := { n with parents := [], children := [] }

/-- Nodes with distinct keys and the calls between them, in the order of insertion. -/
structure KeyGraph where
  nodes : List GraphNode := []
  edges : List GraphEdge := []
deriving DecidableEq, Repr, Inhabited

namespace KeyGraph

instance : EmptyCollection KeyGraph := ⟨{}⟩

variable (g : KeyGraph)

/-- The node with a key. -/
def node? (key : String) : Option GraphNode := g.nodes.find? fun n => n.key == key

/-- Adds a node. -/
def addNode (node : GraphNode) : KeyGraph := { g with nodes := g.nodes ++ [node] }

/-- The node after an edge was added: a child if it calls, a parent if it is called. -/
def linked (edge : GraphEdge) (n : GraphNode) : GraphNode :=
  { n with
    children := if n.key == edge.caller then n.children ++ [edge.callee] else n.children
    parents := if n.key == edge.callee then n.parents ++ [edge.caller] else n.parents }

/-- Adds an edge between nodes that are there. -/
def addEdge (edge : GraphEdge) : KeyGraph :=
  { nodes := g.nodes.map (linked edge), edges := g.edges ++ [edge] }

end KeyGraph

end CallAtlas
