import CallAtlas.Proofs.Materialize.Run
import CallAtlas.Proofs.Store.Keeps
import Mathlib.Data.List.Perm.Basic

/-!
# The graph comes back from the store

The walk sends a node before any of its edges is known, so the nodes that are saved have no callers
and no callees. These are put together again when a node is asked for, from the edges in the store.
That this gives the node of the graph rests on three facts: the nodes sent are those of the graph,
once for every key; the edges sent are those of the graph in their order; and the graph lists the
callers and callees of a node in the order of its edges (`KeyGraph.Shows`). The order in which nodes
and edges reach the store is not among them.
-/

set_option autoImplicit false

namespace CallAtlas

/-! ## What an open walk sends -/

theorem filterMap_node?_filter (items : List Item) :
    (items.filter fun i => i.stream == .nodes).filterMap Item.node? =
      items.filterMap Item.node? := by
  rw [List.filterMap_filter]
  refine List.filterMap_congr fun item _ => ?_
  cases item with
  | node n => rfl
  | edge e => rfl

theorem filterMap_edge?_filter (items : List Item) :
    (items.filter fun i => i.stream == .edges).filterMap Item.edge? =
      items.filterMap Item.edge? := by
  rw [List.filterMap_filter]
  refine List.filterMap_congr fun item _ => ?_
  cases item with
  | node n => rfl
  | edge e => rfl

namespace Materializer

/-- The graph of the calls that are kept. -/
def keptGraph (m : Materializer) (g : CallGraph) : KeyGraph :=
  (m.kept g.walk).foldl KeyGraph.addCall ∅

/-- A walk whose items are all taken sends the nodes and the edges of its graph, each in order. -/
theorem run_open {m : Materializer} (hcancel : m.cancelled = false) (hopen : m.outlets = {})
    (g : CallGraph) :
    (m.run g).1 = .ok (m.keptGraph g) ∧
      (m.run g).2.sent.filterMap Item.node? = (m.keptGraph g).nodes.map GraphNode.bare ∧
      (m.run g).2.sent.filterMap Item.edge? = (m.keptGraph g).edges := by
  have htake : m.outlets.take (m.keptGraph g) = true := by
    rw [hopen]
    rfl
  obtain ⟨s, hwalk, hgraph, htold⟩ := walk_run hcancel htake
  have hsent : (m.run g).2.sent = s.sent := by
    rw [run, hwalk]
    rfl
  have hof : ∀ stream, m.outlets.of stream ≠ .discard := by
    intro stream
    rw [hopen]
    cases stream <;> exact Outlet.noConfusion
  refine ⟨run_eq_ok hcancel htake, ?_, ?_⟩
  · rw [hsent, ← filterMap_node?_filter, htold .nodes (hof .nodes), hgraph, KeyGraph.items,
      List.filterMap_map]
    exact congrFun List.filterMap_eq_map _
  · rw [hsent, ← filterMap_edge?_filter, htold .edges (hof .edges), hgraph, KeyGraph.items,
      List.filterMap_map]
    exact List.filterMap_some

end Materializer

/-! ## Nodes with their callers and callees -/

theorem KeyGraph.Shows.nodup_keys {funcs : List Function} {edges : List GraphEdge} {g : KeyGraph}
    (h : g.Shows funcs edges) : (g.nodes.map GraphNode.key).Nodup := by
  rw [h.keys_eq]
  exact nodup_eraseDups _

theorem KeyGraph.Shows.nodup_keys_bare {funcs : List Function} {edges : List GraphEdge}
    {g : KeyGraph} (h : g.Shows funcs edges) :
    ((g.nodes.map GraphNode.bare).map GraphNode.key).Nodup := by
  rw [List.map_map]
  exact h.nodup_keys

/-- A bare node with the callers and callees that the edges give is the node of the graph. -/
theorem KeyGraph.Shows.node?_eq {funcs : List Function} {edges : List GraphEdge} {g : KeyGraph}
    (h : g.Shows funcs edges) (key : String) :
    (Store.latest? (g.nodes.map GraphNode.bare) key).map (fun n =>
      { n with
        parents := (edges.filter fun e => e.callee == key).map GraphEdge.caller
        children := (edges.filter fun e => e.caller == key).map GraphEdge.callee }) =
        g.node? key := by
  rw [Store.latest?_eq_find? h.nodup_keys_bare, List.find?_map]
  unfold node?
  cases hfound : g.nodes.find? (fun n => n.key == key) with
  | none =>
    have hnone : g.nodes.find? ((fun n => n.key == key) ∘ GraphNode.bare) = none := hfound
    rw [hnone]
    rfl
  | some n =>
    have hsome : g.nodes.find? ((fun n => n.key == key) ∘ GraphNode.bare) = some n := hfound
    obtain ⟨hmem, rfl⟩ := (Store.find?_key_eq_some_iff h.nodup_keys).mp hfound
    have hparents := h.parents n hmem
    have hchildren := h.children n hmem
    rw [hsome, Option.map_some, Option.map_some, ← hparents, ← hchildren]
    rfl

theorem perm_of_mem_iff_latest? {nodes rows : List GraphNode}
    (hkeys : (nodes.map GraphNode.key).Nodup) (hrows : Store.Ascending rows)
    (hmem : ∀ n, n ∈ rows ↔ Store.latest? nodes n.key = some n) : rows.Perm nodes := by
  rw [List.perm_ext_iff_of_nodup hrows.nodup_keys.of_map hkeys.of_map]
  intro n
  rw [hmem, Store.latest?_eq_find? hkeys, Store.find?_key_eq_some_iff hkeys]
  exact ⟨fun hn => hn.1, fun hn => ⟨hn, rfl⟩⟩

/-! ## Any interleaving -/

namespace Materializer

/-- **The store gives back the graph of the walk.** The walk returns a graph, and in whatever order
the nodes and the edges that it sends are interleaved (each kind in its own order), saving them into
an empty store succeeds; the store then finds under every key the node of the graph with its callers
and callees, and nothing under any other key; it lists the edges of the graph in order; and it lists
the nodes of the graph in the order of their keys, without callers and callees. -/
theorem saved_interleaving_eq_graph (program : Program) (filter : EdgeFilter) (label : String)
    (g : CallGraph) :
    ∃ out, (run { program, filter, label } g).1 = .ok out ∧
      ∀ items : List Item,
        items.filterMap Item.node? =
          (run { program, filter, label } g).2.sent.filterMap Item.node? →
        items.filterMap Item.edge? =
          (run { program, filter, label } g).2.sent.filterMap Item.edge? →
        ∀ store ∈ [Store.memory {}, Store.database {}], ∃ store',
          store.init.saveAll items = .ok store' ∧
          (∀ key, store'.node? key = .ok (out.node? key)) ∧
          store'.allEdges = .ok out.edges ∧
          ∃ rows, store'.allNodes = .ok rows ∧ rows.Perm (out.nodes.map GraphNode.bare) ∧
            rows.Pairwise fun a b => a.key < b.key := by
  let m : Materializer := { program, filter, label }
  obtain ⟨hrun, hnodes, hedges⟩ := run_open (m := m) rfl rfl g
  have hshows := KeyGraph.shows_foldl_addCall (m.kept g.walk)
  refine ⟨m.keptGraph g, hrun, fun items hitems hitems' store hstore => ?_⟩
  obtain ⟨store', hsaved, hkeeps⟩ := (Store.keeps_init hstore).saveAll items
  rw [hitems, hitems', hnodes, hedges, List.nil_append, List.nil_append] at hkeeps
  -- from here on the order of arrival is gone: the store keeps the two lists
  have hbare : ∀ n ∈ (m.keptGraph g).nodes.map GraphNode.bare, n.bare = n := by
    intro n hn
    obtain ⟨old, _, rfl⟩ := List.mem_map.mp hn
    rfl
  obtain ⟨rows, hrows, hascending, hmem⟩ := hkeeps.allNodes hbare
  refine ⟨store', hsaved, fun key => ?_, hkeeps.allEdges, rows, hrows,
    perm_of_mem_iff_latest? hshows.nodup_keys_bare hascending hmem, hascending⟩
  rw [hkeeps.node? key]
  have hedges' : (m.keptGraph g).edges = (m.kept g.walk).map .ofCall := hshows.edges_eq
  rw [hedges']
  exact congrArg Except.ok (hshows.node?_eq key)

/-- The walk over `sharedKeyCalls` with consumers that stay. -/
def openSharedKey : Materializer where
  program := sharedKey.program
  filter := sharedKey.filter
  label := sharedKey.label

theorem openSharedKey_evaluated :
    (openSharedKey.run sharedKeyCalls).1.toOption.map (fun out =>
        (out.node? "x.y/m.f", out.node? "x.y/m.f$thunk")) = some (some
          { key := "x.y/m.f", package := "x.y/m", name := "f"
            parents := ["x.y/m.f", "x.y/m.main", "x.y/m.main"], children := ["x.y/m.f"] }, none) ∧
      (openSharedKey.run sharedKeyCalls).2.sent.filterMap Item.node? =
        [{ key := "x.y/m.f", package := "x.y/m", name := "f" },
         { key := "x.y/m.main", package := "x.y/m", name := "main" }] ∧
      (openSharedKey.run sharedKeyCalls).2.sent.filterMap Item.edge? =
        [⟨"x.y/m.f", "x.y/m.f"⟩, ⟨"x.y/m.main", "x.y/m.f"⟩, ⟨"x.y/m.main", "x.y/m.f"⟩] := by
  decide +kernel

/-- The writer of the edges is ahead: edges arrive before their nodes. -/
def edgesAhead : List Item :=
  [.edge ⟨"x.y/m.f", "x.y/m.f"⟩,
   .node { key := "x.y/m.f", package := "x.y/m", name := "f" },
   .edge ⟨"x.y/m.main", "x.y/m.f"⟩,
   .edge ⟨"x.y/m.main", "x.y/m.f"⟩,
   .node { key := "x.y/m.main", package := "x.y/m", name := "main" }]

theorem saved_interleaving_eq_graph_edgesAhead :
    ∀ store ∈ [Store.memory {}, Store.database {}], ∃ store',
      store.init.saveAll edgesAhead = .ok store' ∧
      store'.node? "x.y/m.f" = .ok (some
        { key := "x.y/m.f", package := "x.y/m", name := "f"
          parents := ["x.y/m.f", "x.y/m.main", "x.y/m.main"], children := ["x.y/m.f"] }) ∧
      store'.node? "x.y/m.f$thunk" = .ok none := by
  obtain ⟨out, hrun, hsaved⟩ :=
    saved_interleaving_eq_graph openSharedKey.program openSharedKey.filter openSharedKey.label
      sharedKeyCalls
  obtain ⟨hfound, hnodes, hedges⟩ := openSharedKey_evaluated
  have hrun' : (openSharedKey.run sharedKeyCalls).1 = .ok out := hrun
  rw [hrun'] at hfound
  obtain ⟨hf, hthunk⟩ := Prod.mk.inj (Option.some.inj hfound)
  intro store hstore
  obtain ⟨store', hsave, hnode, _⟩ := hsaved edgesAhead hnodes.symm hedges.symm store hstore
  refine ⟨store', hsave, ?_, ?_⟩
  · rw [hnode, hf]
  · rw [hnode, hthunk]

end Materializer

end CallAtlas
