import CallAtlas.Export
import CallAtlas.FileTree
import CallAtlas.Store.Basic

/-!
# Databases in files

A database is kept in a file with a header and one JSON object: an empty one before its tables are
made, then one with the rows of both tables. Edges are written by id, and those that are read are
inserted again in this order. An empty file is a database without tables; any other text is none.
-/

set_option autoImplicit false

namespace CallAtlas.Store

namespace Database

/-- The row of a node. -/
def nodeRow (n : GraphNode) : Json := .texts [n.key, n.package, n.name]

/-- The row of an edge. -/
def edgeRow (e : GraphEdge) : Json := .texts [e.caller, e.callee]

/-- The first line of a file that holds a database. -/
def header : String := "call graph tables\n"

/-- The rows of a database. -/
def document (d : Database) : Json :=
  match d.tables with
  | none => .obj []
  | some t =>
    .obj [("edges", .array (t.allEdges.map edgeRow)), ("nodes", .array (t.nodes.map nodeRow))]

/-- The text of a database. -/
def encode (d : Database) : String := header ++ d.document.render

/-- The node of a row. -/
def nodeOfRow? (v : Json) : Option GraphNode := do
  match ← v.texts? with
  | [key, package, name] => some { key, package, name }
  | _ => none

/-- The edge of a row. -/
def edgeOfRow? (v : Json) : Option GraphEdge := do
  match ← v.texts? with
  | [caller, callee] => some { caller, callee }
  | _ => none

/-- The database that a text describes. -/
def decode? (text : String) : Option Database :=
  if text.isEmpty then some {}
  else
    match (Text.stripPrefix? header text).bind Json.parse? with
    | some (.object []) => some {}
    | some (.object [(some "edges", .array edges), (some "nodes", .array nodes)]) => do
      let saved : Tables := { nodes := ← nodes.mapM nodeOfRow? }
      some { tables := some ((← edges.mapM edgeOfRow?).foldl Tables.saveEdge saved) }
    | _ => none

end Database

/-- The names under which a database is kept in memory only. -/
def isTransient (path : String) : Bool := path.isEmpty || path == ":memory:"

end CallAtlas.Store

namespace CallAtlas.Disk

open CallAtlas.Store

/-- Writes a database to its file. -/
def closeDatabase (d : Disk) (path : String) (db : Database) : Except StoreError Disk :=
  if isTransient path then .ok d
  else (d.write path db.encode).mapError fun _ => .unavailable

/-- Opens the database in a file; a file that is missing is made. -/
def openDatabase (d : Disk) (path : String) : Except StoreError (Database × Disk) := do
  if isTransient path then return ({}, d)
  let db ←
    match d.read path with
    | .ok text =>
      match Database.decode? text with
      | some db => pure db
      | none => .error .unavailable
    | .error .notFound => pure {}
    | .error _ => .error .unavailable
  return (db, ← d.closeDatabase path db)

end CallAtlas.Disk
