import CallAtlas.KeyGraph
import CallAtlas.Text.Json

/-!
# Graphs as JSON

A document holds the packages once, the nodes with the number of their package, and the edges as
pairs of numbers of nodes. The full format adds the callers and callees of every node.

Single nodes and edges have a form of their own: an object with named fields, or an array of the
fields in order.
-/

set_option autoImplicit false

namespace CallAtlas

/-- How much a document says about a node. -/
inductive Detail where
  | compact
  | full
deriving DecidableEq, Repr, Inhabited

/-- The name of the format. -/
def Detail.name : Detail → String
  | .compact => "compact"
  | .full => "full"

namespace KeyGraph

variable (g : KeyGraph)

/-- The packages of the nodes, each once. -/
def packages : List String := (g.nodes.map GraphNode.package).eraseDups

/-- The number of the node with a key. -/
def indexOf? (key : String) : Option Nat := g.nodes.findIdx? fun n => n.key == key

/-- A node in a document. -/
def nodeDocument (detail : Detail) (n : GraphNode) : Json :=
  let package := Json.nat (g.packages.idxOf n.package)
  match detail with
  | .compact => .obj [("k", .text n.key), ("n", .text n.name), ("p", package)]
  | .full =>
    .obj [("children", .texts n.children), ("key", .text n.key), ("name", .text n.name),
      ("parents", .texts n.parents), ("pkg", package)]

/-- An edge in a document, if both of its nodes are in the graph. -/
def edgeDocument? (e : GraphEdge) : Option Json := do
  return .array [.nat (← g.indexOf? e.caller), .nat (← g.indexOf? e.callee)]

/-- The document of a graph. The members of every object are in alphabetical order. -/
def document (detail : Detail) : Json :=
  .obj [
    ("edges", .array (g.edges.filterMap g.edgeDocument?)),
    ("meta", .obj [("edges", .nat g.edges.length), ("format", .text detail.name),
      ("nodes", .nat g.nodes.length)]),
    ("nodes", .array (g.nodes.map (g.nodeDocument detail))),
    ("packages", .texts g.packages)]

/-- The text of a graph. -/
def exported (detail : Detail) : String := (g.document detail).render

end KeyGraph

/-! ## Single nodes and edges -/

namespace Json

/-- The text of a string. -/
def text? : Json → Option String
  | .string s => s
  | _ => none

/-- A list of texts. -/
def texts? : Json → Option (List String)
  | .array items => items.mapM text?
  | _ => none

/-- The values of known fields in order, `none` for a field that is missing. An array holds the
first fields in order. An object may hold other members too, but all its keys are texts, and a known
one stands there at most once. -/
def fields? (names : List String) : Json → Option (List (Option Json))
  | .array items =>
    if items.length ≤ names.length then
      some (items.map some ++ List.replicate (names.length - items.length) none)
    else none
  | .object members => do
    let keys ← members.mapM Prod.fst
    if names.any fun name => 1 < keys.count name then none
    else some (names.map fun name => members.lookup (some name))
  | _ => none

end Json

/-- The node that a JSON value describes. Callers and callees may be missing. -/
def GraphNode.ofJson? (v : Json) : Option GraphNode := do
  match ← v.fields? ["key", "pkg", "name", "parents", "children"] with
  | [some key, some package, some name, parents, children] =>
    return {
      key := ← key.text?
      package := ← package.text?
      name := ← name.text?
      parents := ← (parents.getD (.array [])).texts?
      children := ← (children.getD (.array [])).texts? }
  | _ => none

/-- The edge that a JSON value describes. -/
def GraphEdge.ofJson? (v : Json) : Option GraphEdge := do
  match ← v.fields? ["caller_key", "callee_key"] with
  | [some caller, some callee] => return { caller := ← caller.text?, callee := ← callee.text? }
  | _ => none

/-- The object that describes a node. -/
def GraphNode.toJson (n : GraphNode) : Json :=
  .obj [("key", .text n.key), ("pkg", .text n.package), ("name", .text n.name),
    ("parents", .texts n.parents), ("children", .texts n.children)]

/-- The object that describes an edge. -/
def GraphEdge.toJson (e : GraphEdge) : Json :=
  .obj [("caller_key", .text e.caller), ("callee_key", .text e.callee)]

end CallAtlas
