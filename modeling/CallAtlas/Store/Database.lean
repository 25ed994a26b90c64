import CallAtlas.Error
import CallAtlas.Store.Memory
import CallAtlas.Store.Pattern

/-!
# The store in tables

Two tables, one of nodes and one of edges. The rows of nodes are kept in the order of their keys. A
row of an edge gets an id of its own when it is inserted; where the rows lie in the table says
nothing, so every query of edges sorts by id. Before the tables are made, every other use is
refused. Callers and callees are not stored with a node; they follow from the edges.
-/

set_option autoImplicit false

namespace CallAtlas.Store

/-- A row of the table of edges. -/
structure EdgeRow where
  id : Nat
  caller : String
  callee : String
deriving DecidableEq, Repr, Inhabited

namespace EdgeRow

/-- The edge of a row. -/
def edge (row : EdgeRow) : GraphEdge := ⟨row.caller, row.callee⟩

/-- Rows in the order of their ids. -/
def byId (rows : List EdgeRow) : List EdgeRow := rows.mergeSort fun a b => a.id ≤ b.id

end EdgeRow

/-- The two tables, and the last id that an edge got. -/
structure Tables where
  nodes : List GraphNode := []
  edges : List EdgeRow := []
  lastId : Nat := 0
deriving DecidableEq, Repr, Inhabited

namespace Tables

/-- Puts a row in its place among rows in the order of keys; one with the same key is replaced. -/
def upsert (node : GraphNode) : List GraphNode → List GraphNode
  | [] => [node]
  | row :: rest =>
    if node.key < row.key then node :: row :: rest
    else if node.key == row.key then node :: rest
    else row :: upsert node rest

variable (t : Tables)

/-- The row with a key. -/
def row? (key : String) : Option GraphNode := t.nodes.find? fun row => row.key == key

/-- Saves a node without its callers and callees. -/
def saveNode (node : GraphNode) : Tables := { t with nodes := upsert node.bare t.nodes }

/-- Saves an edge under the next id. -/
def saveEdge (edge : GraphEdge) : Tables :=
  { t with edges := ⟨t.lastId + 1, edge.caller, edge.callee⟩ :: t.edges, lastId := t.lastId + 1 }

/-- A column of the rows of edges with a key in another column, by id. -/
def edgeColumn (select filter : EdgeRow → String) (key : String) : List String :=
  (EdgeRow.byId (t.edges.filter fun row => filter row == key)).map select

/-- The rows of keys, without those that were never saved. -/
def nodesFor (keys : List String) : List GraphNode := keys.filterMap t.row?

/-- The node with a key, with the callers and callees that the edges give. -/
def node? (key : String) : Option GraphNode :=
  (t.row? key).map fun row =>
    { row with
      parents := t.edgeColumn EdgeRow.caller EdgeRow.callee key
      children := t.edgeColumn EdgeRow.callee EdgeRow.caller key }

/-- The callers of a key, one for every edge, without those that were never saved. -/
def callers (key : String) : List GraphNode :=
  t.nodesFor (t.edgeColumn EdgeRow.caller EdgeRow.callee key)

/-- The callees of a key, one for every edge, without those that were never saved. -/
def callees (key : String) : List GraphNode :=
  t.nodesFor (t.edgeColumn EdgeRow.callee EdgeRow.caller key)

/-- All edges by id. -/
def allEdges : List GraphEdge := (EdgeRow.byId t.edges).map EdgeRow.edge

/-- The largest number of rows that can be asked for. -/
def maxLimit : Nat := 9223372036854775807

/-- A search for a text finds a row if the name or the package matches the text between two
wildcards. The letters of the text are folded all, those of names and packages only within ASCII. -/
def finds (query : String) (row : GraphNode) : Bool :=
  let pattern := '%' :: Pattern.literal (Text.lower query).toList ++ ['%']
  let hit (text : String) : Bool := Pattern.accepts pattern (Text.lowerAsciiAll text).toList
  hit row.name || hit row.package

/-- The first nodes that a search finds. -/
def search (query : String) (limit : Nat) : List GraphNode :=
  (t.nodes.filter (finds query)).take (min limit maxLimit)

end Tables

/-- A database, whose tables may not be there yet. -/
structure Database where
  tables : Option Tables := none
deriving DecidableEq, Repr, Inhabited

namespace Database

variable (d : Database)

/-- Makes the tables unless they are there. -/
def init : Database := { tables := some (d.tables.getD {}) }

/-- Uses the tables. -/
def query {α : Type} (f : Tables → α) : Except StoreError α :=
  match d.tables with
  | some t => .ok (f t)
  | none => .error .unavailable

/-- Changes the tables. -/
def update (f : Tables → Tables) : Except StoreError Database :=
  d.query fun t => { tables := some (f t) }

end Database

end CallAtlas.Store
