import CallAtlas.Export
import CallAtlas.Proofs.Materialize.Saved
import CallAtlas.Proofs.Passes

/-!
# Reading a document back

A document names a package by its place in the list of packages and a node by its place in the list
of nodes. Reading it back means to follow these numbers. Two things could be lost on the way out: an
edge is left out if one of its ends has no number, and the compact format leaves out the callers and
callees of a node. In a graph that a walk returns (`KeyGraph.Shows`) both ends of every edge are
nodes, and the callers and callees of a node are those that the edges give, in their order; so the
graph comes back whole from either format.
-/

set_option autoImplicit false

namespace CallAtlas

/-! ## The parts of a document -/

namespace Json

/-- The value of a member of an object. -/
def member? (name : String) : Json → Option Json
  | .object members => members.lookup (some name)
  | _ => none

def nat? : Json → Option Nat
  | .number (.ofNat n) 0 => some n
  | _ => none

def items? : Json → Option (List Json)
  | .array items => some items
  | _ => none

/-- Two numbers. -/
def pair? : Json → Option (Nat × Nat)
  | .array [a, b] => do return (← a.nat?, ← b.nat?)
  | _ => none

end Json

def Detail.ofName? (name : String) : Option Detail :=
  [Detail.compact, Detail.full].find? fun detail => detail.name == name

/-- What a document says of a node: its key and name, the number of its package, and in the full
format its callers and callees. -/
structure DocumentNode where
  key : String
  name : String
  package : Nat
  links : Option (List String × List String)
deriving DecidableEq, Repr

/-- What a document says: its format, the numbers of nodes and of edges, and the lists that the
numbers in it refer to. -/
structure Document where
  detail : Detail
  nodeCount : Nat
  edgeCount : Nat
  packages : List String
  nodes : List DocumentNode
  edges : List (Nat × Nat)
deriving DecidableEq, Repr

def DocumentNode.ofJson? (detail : Detail) (v : Json) : Option DocumentNode :=
  match detail with
  | .compact => do
    return {
      key := ← (← v.member? "k").text?
      name := ← (← v.member? "n").text?
      package := ← (← v.member? "p").nat?
      links := none }
  | .full => do
    return {
      key := ← (← v.member? "key").text?
      name := ← (← v.member? "name").text?
      package := ← (← v.member? "pkg").nat?
      links := some (← (← v.member? "parents").texts?, ← (← v.member? "children").texts?) }

namespace Document

/-- Reads a document. -/
def ofJson? (v : Json) : Option Document := do
  let summary ← v.member? "meta"
  let detail ← Detail.ofName? (← (← summary.member? "format").text?)
  return {
    detail
    nodeCount := ← (← summary.member? "nodes").nat?
    edgeCount := ← (← summary.member? "edges").nat?
    packages := ← (← v.member? "packages").texts?
    nodes := ← (← (← v.member? "nodes").items?).mapM (DocumentNode.ofJson? detail)
    edges := ← (← (← v.member? "edges").items?).mapM Json.pair? }

variable (doc : Document)

/-- The edge between the keys of two numbered nodes. -/
def edge? (e : Nat × Nat) : Option GraphEdge := do
  return { caller := (← doc.nodes[e.1]?).key, callee := (← doc.nodes[e.2]?).key }

/-- A node with its package. What the document does not say of its callers and callees is taken
from the edges. -/
def node? (edges : List GraphEdge) (n : DocumentNode) : Option GraphNode := do
  let package ← doc.packages[n.package]?
  let links := n.links.getD
    ((edges.filter fun e => e.callee == n.key).map GraphEdge.caller,
      (edges.filter fun e => e.caller == n.key).map GraphEdge.callee)
  return { key := n.key, package, name := n.name, parents := links.1, children := links.2 }

/-- The graph that a document describes. -/
def graph? : Option KeyGraph := do
  let edges ← doc.edges.mapM doc.edge?
  return { nodes := ← doc.nodes.mapM (doc.node? edges), edges }

end Document

/-! ## What is written -/

theorem Json.texts?_texts (items : List String) : (Json.texts items).texts? = some items :=
  mapM_map_eq_some items fun _ => rfl

theorem Detail.ofName?_name (detail : Detail) : Detail.ofName? detail.name = some detail := by
  cases detail <;> decide

namespace KeyGraph

variable (g : KeyGraph)

/-- The numbers of the ends of an edge. -/
def ends? (e : GraphEdge) : Option (Nat × Nat) := do
  return (← g.indexOf? e.caller, ← g.indexOf? e.callee)

/-- What the document of a graph says of a node. -/
def entry (detail : Detail) (n : GraphNode) : DocumentNode where
  key := n.key
  name := n.name
  package := g.packages.idxOf n.package
  links := if detail = .full then some (n.parents, n.children) else none

/-- What the document of a graph says. -/
def summary (detail : Detail) : Document where
  detail
  nodeCount := g.nodes.length
  edgeCount := g.edges.length
  packages := g.packages
  nodes := g.nodes.map (g.entry detail)
  edges := g.edges.filterMap g.ends?

theorem ofJson?_nodeDocument (detail : Detail) (n : GraphNode) :
    DocumentNode.ofJson? detail (g.nodeDocument detail n) = some (g.entry detail n) := by
  cases detail with
  | compact => rfl
  | full =>
    have hparents : (g.nodeDocument .full n).member? "parents" = some (.texts n.parents) := rfl
    have hchildren : (g.nodeDocument .full n).member? "children" = some (.texts n.children) := rfl
    unfold DocumentNode.ofJson?
    simp only [hparents, hchildren, Option.bind_eq_bind, Option.bind_some, Json.texts?_texts]
    rfl

theorem edgeDocument?_eq (e : GraphEdge) :
    g.edgeDocument? e = (g.ends? e).map fun ends => .array [.nat ends.1, .nat ends.2] := by
  unfold edgeDocument? ends?
  cases g.indexOf? e.caller <;> cases g.indexOf? e.callee <;> rfl

theorem mapM_pair?_edges :
    (g.edges.filterMap g.edgeDocument?).mapM Json.pair? = some (g.edges.filterMap g.ends?) := by
  have hwritten : g.edges.filterMap g.edgeDocument? =
      (g.edges.filterMap g.ends?).map fun ends => .array [.nat ends.1, .nat ends.2] := by
    rw [List.map_filterMap]
    exact List.filterMap_congr fun e _ => g.edgeDocument?_eq e
  rw [hwritten]
  exact mapM_map_eq_some _ fun _ => rfl

theorem ofJson?_document (detail : Detail) :
    Document.ofJson? (g.document detail) = some (g.summary detail) := by
  have hnodes : (g.nodes.map (g.nodeDocument detail)).mapM (DocumentNode.ofJson? detail) =
      some (g.nodes.map (g.entry detail)) := by
    rw [List.mapM_map]
    exact mapM_eq_some_map fun n _ => g.ofJson?_nodeDocument detail n
  calc Document.ofJson? (g.document detail)
    _ = (do
        return {
          detail := ← Detail.ofName? detail.name
          nodeCount := g.nodes.length
          edgeCount := g.edges.length
          packages := ← (Json.texts g.packages).texts?
          nodes := ← (g.nodes.map (g.nodeDocument detail)).mapM (DocumentNode.ofJson? detail)
          edges := ← (g.edges.filterMap g.edgeDocument?).mapM Json.pair? } : Option Document) := by
      cases detail <;> rfl
    _ = some (g.summary detail) := by
      rw [Detail.ofName?_name, Json.texts?_texts, hnodes, g.mapM_pair?_edges]
      rfl

/-! ## Following the numbers -/

variable {g}

theorem getElem?_packages {n : GraphNode} (hn : n ∈ g.nodes) :
    g.packages[g.packages.idxOf n.package]? = some n.package := by
  apply List.getElem?_idxOf
  rw [packages, List.mem_eraseDups]
  exact List.mem_map_of_mem hn

theorem exists_indexOf? {key : String} (hkey : key ∈ g.nodes.map GraphNode.key) :
    ∃ i n, g.indexOf? key = some i ∧ g.nodes[i]? = some n ∧ n.key = key := by
  have hfound : (g.indexOf? key).isSome := by
    obtain ⟨n, hn, rfl⟩ := List.mem_map.mp hkey
    rw [indexOf?, List.findIdx?_isSome, List.any_eq_true]
    exact ⟨n, hn, beq_self_eq_true n.key⟩
  obtain ⟨i, hi⟩ := Option.isSome_iff_exists.mp hfound
  obtain ⟨hlt, hbeq, _⟩ := List.findIdx?_eq_some_iff_getElem.mp hi
  exact ⟨i, g.nodes[i], hi, List.getElem?_eq_getElem hlt, eq_of_beq hbeq⟩

theorem exists_ends? (detail : Detail) {e : GraphEdge}
    (hcaller : e.caller ∈ g.nodes.map GraphNode.key)
    (hcallee : e.callee ∈ g.nodes.map GraphNode.key) :
    ∃ ends, g.ends? e = some ends ∧ (g.summary detail).edge? ends = some e := by
  obtain ⟨i, a, hi, ha, hakey⟩ := exists_indexOf? hcaller
  obtain ⟨j, b, hj, hb, hbkey⟩ := exists_indexOf? hcallee
  refine ⟨(i, j), ?_, ?_⟩
  · unfold ends?
    rw [hi, hj]
    rfl
  · have hcaller' : (g.summary detail).nodes[i]? = some (g.entry detail a) := by
      rw [summary, List.getElem?_map, ha, Option.map_some]
    have hcallee' : (g.summary detail).nodes[j]? = some (g.entry detail b) := by
      rw [summary, List.getElem?_map, hb, Option.map_some]
    unfold Document.edge?
    rw [hcaller', hcallee', Option.bind_eq_bind]
    exact congrArg some (congrArg₂ GraphEdge.mk hakey hbkey)

variable {funcs : List Function} {edges : List GraphEdge}

/-- Every edge has its pair of numbers, and the pairs lead back to the edges. -/
theorem Shows.mapM_edge? (h : g.Shows funcs edges) (detail : Detail) :
    (g.summary detail).edges.mapM (g.summary detail).edge? = some g.edges ∧
      (g.summary detail).edges.length = g.edges.length := by
  apply mapM_filterMap_eq_some
  intro e he
  rw [h.edges_eq] at he
  obtain ⟨hcaller, hcallee⟩ := h.ends e he
  exact exists_ends? detail (h.mem_keys.mpr hcaller) (h.mem_keys.mpr hcallee)

/-- What a document says of a node, with the edges, is the node. -/
theorem Shows.node?_entry (h : g.Shows funcs edges) (detail : Detail) {n : GraphNode}
    (hn : n ∈ g.nodes) : (g.summary detail).node? g.edges (g.entry detail n) = some n := by
  have hpackage : (g.summary detail).packages[(g.entry detail n).package]? = some n.package :=
    getElem?_packages hn
  have hlinks : (g.entry detail n).links.getD
      ((g.edges.filter fun e => e.callee == n.key).map GraphEdge.caller,
        (g.edges.filter fun e => e.caller == n.key).map GraphEdge.callee) =
          (n.parents, n.children) := by
    cases detail with
    | full => rfl
    | compact =>
      rw [h.parents n hn, h.children n hn, h.edges_eq]
      rfl
  have hkey : (g.entry detail n).key = n.key := rfl
  unfold Document.node?
  rw [hpackage, Option.bind_eq_bind, Option.bind_some, hkey, hlinks]
  rfl

theorem Shows.graph?_summary (h : g.Shows funcs edges) (detail : Detail) :
    (g.summary detail).graph? = some g := by
  have hnodes : (g.summary detail).nodes.mapM ((g.summary detail).node? g.edges) =
      some (g.nodes.map id) := by
    rw [summary, List.mapM_map]
    exact mapM_eq_some_map fun n hn => h.node?_entry detail hn
  unfold Document.graph?
  rw [(h.mapM_edge? detail).1, Option.bind_eq_bind, Option.bind_some, hnodes, List.map_id]
  rfl

end KeyGraph

namespace Materializer

/-- **A document gives back the graph that was walked.** Whatever the walk returns, its document in
either format can be read. The nodes in it are the nodes of the graph in order, with their keys,
names and packages, and in the full format with their callers and callees; no package stands there
twice; the pairs of numbers lead through the keys of the nodes to the edges of the graph, in order
and without a gap; the document counts nodes and edges right; and following all the numbers gives
the graph itself. -/
theorem document_gives_back_graph (m : Materializer) (calls : CallGraph) (detail : Detail)
    (out : KeyGraph) (hrun : (m.run calls).1 = .ok out) :
    ∃ doc, Document.ofJson? (out.document detail) = some doc ∧
      doc.detail = detail ∧
      doc.nodes.length = out.nodes.length ∧
      (∀ (i : Nat) (n : GraphNode), out.nodes[i]? = some n → ∃ entry, doc.nodes[i]? = some entry ∧
        entry.key = n.key ∧ entry.name = n.name ∧ doc.packages[entry.package]? = some n.package ∧
        entry.links = if detail = .full then some (n.parents, n.children) else none) ∧
      doc.packages.Nodup ∧
      doc.edges.mapM doc.edge? = some out.edges ∧
      doc.edges.length = doc.edgeCount ∧
      doc.edgeCount = out.edges.length ∧
      doc.nodeCount = out.nodes.length ∧
      doc.graph? = some out := by
  have hshows := KeyGraph.shows_foldl_addCall (m.kept calls.walk)
  rw [← m.eq_of_run_eq_ok hrun] at hshows
  obtain ⟨hedges, hlength⟩ := hshows.mapM_edge? detail
  refine ⟨out.summary detail, out.ofJson?_document detail, rfl, List.length_map .., ?_,
    nodup_eraseDups _, hedges, hlength, rfl, rfl, hshows.graph?_summary detail⟩
  intro i n hn
  refine ⟨out.entry detail n, ?_, rfl, rfl,
    KeyGraph.getElem?_packages (List.mem_of_getElem? hn), rfl⟩
  rw [KeyGraph.summary, List.getElem?_map, hn, Option.map_some]

/-- The graph of `sharedKeyCalls`, in which two functions share a node and an edge stands twice. -/
def sharedKeyGraph : KeyGraph where
  nodes :=
    [{ key := "x.y/m.f", package := "x.y/m", name := "f"
       parents := ["x.y/m.f", "x.y/m.main", "x.y/m.main"], children := ["x.y/m.f"] },
     { key := "x.y/m.main", package := "x.y/m", name := "main", children :=
       ["x.y/m.f", "x.y/m.f"] }]
  edges := [⟨"x.y/m.f", "x.y/m.f"⟩, ⟨"x.y/m.main", "x.y/m.f"⟩, ⟨"x.y/m.main", "x.y/m.f"⟩]

theorem run_sharedKeyCalls : (openSharedKey.run sharedKeyCalls).1 = .ok sharedKeyGraph := by
  have hgraph : (openSharedKey.run sharedKeyCalls).1.toOption = some sharedKeyGraph := by
    decide +kernel
  cases hrun : (openSharedKey.run sharedKeyCalls).1 with
  | error e =>
    rw [hrun] at hgraph
    cases hgraph
  | ok out =>
    rw [hrun] at hgraph
    exact congrArg Except.ok (Option.some.inj hgraph)

theorem document_gives_back_graph_sharedKey :
    (openSharedKey.run sharedKeyCalls).1 = .ok sharedKeyGraph ∧
      ∃ doc, Document.ofJson? (sharedKeyGraph.document .compact) = some doc ∧
        doc.packages = ["x.y/m"] ∧ doc.edges = [(0, 0), (1, 0), (1, 0)] ∧
        doc.nodes.map DocumentNode.links = [none, none] ∧
        doc.graph? = some sharedKeyGraph := by
  refine ⟨run_sharedKeyCalls, ?_⟩
  obtain ⟨doc, hread, _, _, _, _, _, _, _, _, hgraph⟩ :=
    document_gives_back_graph openSharedKey sharedKeyCalls .compact sharedKeyGraph
      run_sharedKeyCalls
  have hsummary : some doc = some (sharedKeyGraph.summary .compact) :=
    hread.symm.trans (sharedKeyGraph.ofJson?_document .compact)
  have hlists : (sharedKeyGraph.summary .compact).packages = ["x.y/m"] ∧
      (sharedKeyGraph.summary .compact).edges = [(0, 0), (1, 0), (1, 0)] ∧
      (sharedKeyGraph.summary .compact).nodes.map DocumentNode.links = [none, none] := by
    decide +kernel
  rw [← Option.some.inj hsummary] at hlists
  exact ⟨doc, hread, hlists.1, hlists.2.1, hlists.2.2, hgraph⟩

end Materializer

end CallAtlas
