import CallAtlas.Store.Database

/-!
# Stores

A store is one in memory or one in tables. Every operation can be refused; the store in memory
refuses none.
-/

set_option autoImplicit false

namespace CallAtlas

/-- Where a graph is kept. -/
inductive Store where
  | memory (s : Store.Memory)
  | database (d : Store.Database)
deriving Inhabited

namespace Store

variable (store : Store)

/-- Makes the store ready. -/
def init : Store :=
  match store with
  | .memory s => .memory s
  | .database d => .database d.init

/-- Saves a node in place of the one with the same key. -/
def saveNode (node : GraphNode) : Except StoreError Store :=
  match store with
  | .memory s => .ok (.memory (s.saveNode node))
  | .database d => (d.update (·.saveNode node)).map .database

/-- Saves an edge behind all others. -/
def saveEdge (edge : GraphEdge) : Except StoreError Store :=
  match store with
  | .memory s => .ok (.memory (s.saveEdge edge))
  | .database d => (d.update (·.saveEdge edge)).map .database

/-- The node with a key, its callers and callees filled in from the edges. -/
def node? (key : String) : Except StoreError (Option GraphNode) :=
  match store with
  | .memory s => .ok (s.node? key)
  | .database d => d.query (·.node? key)

/-- The callers of a key, one for every edge. -/
def callers (key : String) : Except StoreError (List GraphNode) :=
  match store with
  | .memory s => .ok (s.callers key)
  | .database d => d.query (·.callers key)

/-- The callees of a key, one for every edge. -/
def callees (key : String) : Except StoreError (List GraphNode) :=
  match store with
  | .memory s => .ok (s.callees key)
  | .database d => d.query (·.callees key)

/-- All nodes in the order of their keys. -/
def allNodes : Except StoreError (List GraphNode) :=
  match store with
  | .memory s => .ok s.allNodes
  | .database d => d.query (·.nodes)

/-- All edges in the order in which they were saved. -/
def allEdges : Except StoreError (List GraphEdge) :=
  match store with
  | .memory s => .ok s.edges
  | .database d => d.query (·.allEdges)

/-- The first nodes, in the order of their keys, whose name or package contains a text. -/
def search (query : String) (limit : Nat) : Except StoreError (List GraphNode) :=
  match store with
  | .memory s => .ok (s.search query limit)
  | .database d => d.query (·.search query limit)

end Store

end CallAtlas
