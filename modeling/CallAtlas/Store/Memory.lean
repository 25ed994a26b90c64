import CallAtlas.KeyGraph
import CallAtlas.Table
import CallAtlas.Text.Basic
import CallAtlas.Text.Case

/-!
# The store in memory

Nodes by key, the last one saved under a key, and edges in the order in which they were saved. Nodes
are sorted when they are listed.
-/

set_option autoImplicit false

namespace CallAtlas.Store

/-- Nodes and edges in memory. -/
structure Memory where
  nodes : Table String GraphNode := ∅
  edges : List GraphEdge := []
deriving Inhabited

namespace Memory

variable (s : Memory)

/-- Saves a node in place of the one with the same key. -/
def saveNode (node : GraphNode) : Memory := { s with nodes := s.nodes.insert node.key node }

/-- Saves an edge behind all others. -/
def saveEdge (edge : GraphEdge) : Memory := { s with edges := s.edges ++ [edge] }

/-- The keys that call a key, one for every edge. -/
def callerKeys (key : String) : List String :=
  (s.edges.filter fun e => e.callee == key).map GraphEdge.caller

/-- The keys that a key calls, one for every edge. -/
def calleeKeys (key : String) : List String :=
  (s.edges.filter fun e => e.caller == key).map GraphEdge.callee

/-- The node with a key, with the callers and callees that the edges give. -/
def node? (key : String) : Option GraphNode :=
  (s.nodes.get? key).map fun node =>
    { node with parents := s.callerKeys key, children := s.calleeKeys key }

/-- The callers of a key, one for every edge, without those that were never saved. -/
def callers (key : String) : List GraphNode := (s.callerKeys key).filterMap s.nodes.get?

/-- The callees of a key, one for every edge, without those that were never saved. -/
def callees (key : String) : List GraphNode := (s.calleeKeys key).filterMap s.nodes.get?

/-- Nodes in the order of their keys. -/
def sorted (nodes : List GraphNode) : List GraphNode := nodes.mergeSort fun a b => a.key ≤ b.key

/-- All nodes in the order of their keys. -/
def allNodes : List GraphNode := sorted s.nodes.values

/-- A search for a text finds a node if the name or the package contains it, whatever the case
of the letters. -/
def finds (query : String) (node : GraphNode) : Bool :=
  let needle := Text.lower query
  let hit (text : String) : Bool := Text.contains needle (Text.lower text)
  hit node.name || hit node.package

/-- The first nodes that a search finds. -/
def search (query : String) (limit : Nat) : List GraphNode :=
  (sorted (s.nodes.values.filter (finds query))).take limit

end Memory

end CallAtlas.Store
