import CallAtlas.Proofs.Store.Keeps
import Mathlib.Data.List.Sort

/-!
# The two stores give the same answers

The store in memory and the one in tables keep what they are given in different forms, and they
answer every question from that form. What both keep is described by the same two lists
(`Keeps`), so it is enough that each answer is a function of these lists. Two of the answers need
more than a look-up.

- The neighbours of a key are found edge by edge, and an end that was never saved has no node. The
  tables hold bare nodes, so the nodes found agree only where the nodes that were saved are bare.
- The list of all nodes is sorted by one store when it is asked for and by the other when a node is
  saved. Keys that strictly increase leave only one order.
-/

set_option autoImplicit false

namespace CallAtlas.Store

variable {nodes : List GraphNode} {edges : List GraphEdge} {store : Store}

/-! ## Neighbours and listings -/

theorem Tables.Keeps.row?_eq_latest? {t : Tables} (h : t.Keeps nodes edges)
    (hbare : ∀ n ∈ nodes, n.bare = n) : t.row? = latest? nodes := by
  funext key
  rw [h.row?_eq, map_bare_latest? hbare]

/-- The nodes at one end of the edges that have a key at the other. -/
theorem Tables.Keeps.nodesFor_edgeColumn {t : Tables} (h : t.Keeps nodes edges)
    (hbare : ∀ n ∈ nodes, n.bare = n) (select filter : GraphEdge → String) (key : String) :
    t.nodesFor (t.edgeColumn (select ∘ EdgeRow.edge) (filter ∘ EdgeRow.edge) key) =
      (edges.filter fun e => filter e == key).filterMap fun e => latest? nodes (select e) := by
  rw [h.edgeColumn, Tables.nodesFor, h.row?_eq_latest? hbare, List.filterMap_map]
  rfl

theorem Keeps.callers (h : Keeps nodes edges store) (hbare : ∀ n ∈ nodes, n.bare = n)
    (key : String) : store.callers key =
      .ok ((edges.filter fun e => e.callee == key).filterMap fun e => latest? nodes e.caller) := by
  cases store with
  | memory s =>
    have hget : s.nodes.get? = latest? nodes := funext h.get?_eq
    rw [Store.callers, Memory.callers, Memory.callerKeys, hget, h.edges_eq, List.filterMap_map]
    rfl
  | database d =>
    obtain ⟨t, ht, hkeeps⟩ := h
    rw [← hkeeps.nodesFor_edgeColumn hbare GraphEdge.caller GraphEdge.callee key]
    simp only [Store.callers, Database.query, ht]
    rfl

theorem Keeps.callees (h : Keeps nodes edges store) (hbare : ∀ n ∈ nodes, n.bare = n)
    (key : String) : store.callees key =
      .ok ((edges.filter fun e => e.caller == key).filterMap fun e => latest? nodes e.callee) := by
  cases store with
  | memory s =>
    have hget : s.nodes.get? = latest? nodes := funext h.get?_eq
    rw [Store.callees, Memory.callees, Memory.calleeKeys, hget, h.edges_eq, List.filterMap_map]
    rfl
  | database d =>
    obtain ⟨t, ht, hkeeps⟩ := h
    rw [← hkeeps.nodesFor_edgeColumn hbare GraphEdge.callee GraphEdge.caller key]
    simp only [Store.callees, Database.query, ht]
    rfl

theorem Ascending.eq_of_mem_iff {rows rows' : List GraphNode} (h : Ascending rows)
    (h' : Ascending rows') (hmem : ∀ n, n ∈ rows ↔ n ∈ rows') : rows = rows' := by
  have hperm : rows.Perm rows' :=
    (List.perm_ext_iff_of_nodup h.nodup_keys.of_map h'.nodup_keys.of_map).mpr hmem
  refine hperm.eq_of_pairwise ?_ h h'
  intro a b _ _ hlt hgt
  exact absurd (String.lt_trans hlt hgt) (String.lt_irrefl a.key)

/-- All stores that keep the same lists list the same nodes. -/
theorem Keeps.allNodes_eq {store' : Store} (h : Keeps nodes edges store)
    (h' : Keeps nodes edges store') (hbare : ∀ n ∈ nodes, n.bare = n) :
    store.allNodes = store'.allNodes := by
  obtain ⟨rows, hrows, hascending, hmem⟩ := h.allNodes hbare
  obtain ⟨rows', hrows', hascending', hmem'⟩ := h'.allNodes hbare
  have heq : rows = rows' := by
    apply hascending.eq_of_mem_iff hascending'
    intro n
    rw [hmem, hmem']
  rw [hrows, hrows', heq]

/-! ## Agreement -/

/-- What a store answers to every question once the nodes and edges of two lists were saved. -/
structure Answers (nodes : List GraphNode) (edges : List GraphEdge) (store : Store) : Prop where
  node? : ∀ key, store.node? key = .ok ((latest? nodes key).map fun n =>
    { n with
      parents := (edges.filter fun e => e.callee == key).map GraphEdge.caller
      children := (edges.filter fun e => e.caller == key).map GraphEdge.callee })
  callers : ∀ key, store.callers key =
    .ok ((edges.filter fun e => e.callee == key).filterMap fun e => latest? nodes e.caller)
  callees : ∀ key, store.callees key =
    .ok ((edges.filter fun e => e.caller == key).filterMap fun e => latest? nodes e.callee)
  allEdges : store.allEdges = .ok edges
  allNodes : ∃ rows, store.allNodes = .ok rows ∧ (rows.Pairwise fun a b => a.key < b.key) ∧
    ∀ n, n ∈ rows ↔ latest? nodes n.key = some n

theorem Keeps.answers (h : Keeps nodes edges store) (hbare : ∀ n ∈ nodes, n.bare = n) :
    store.Answers nodes edges where
  node? := h.node?
  callers := h.callers hbare
  callees := h.callees hbare
  allEdges := h.allEdges
  allNodes := h.allNodes hbare

theorem bare_eq_self {n : GraphNode} (hparents : n.parents = []) (hchildren : n.children = []) :
    n.bare = n := by
  cases n
  simp_all [GraphNode.bare]

/-- **The two stores cannot be told apart.** Whatever nodes without callers and callees and whatever
edges are saved, in any order, both stores take them all, and then they give the same answer to
every question. A key has the last node that was saved under it, with one caller and one callee for
every edge; its callers and callees as nodes are those of its edges, in the order in which these
were saved, without exactly the ends under whose key no node was saved; all nodes are listed once,
by strictly increasing keys; and all edges in the order in which they were saved. -/
theorem saved_answers_agree (items : List Item)
    (hbare : ∀ n, .node n ∈ items → n.parents = [] ∧ n.children = []) :
    ∃ memory database,
      (Store.memory {}).init.saveAll items = .ok memory ∧
      (Store.database {}).init.saveAll items = .ok database ∧
      (∀ key, memory.node? key = database.node? key ∧ memory.callers key = database.callers key ∧
        memory.callees key = database.callees key) ∧
      memory.allNodes = database.allNodes ∧ memory.allEdges = database.allEdges ∧
      memory.Answers (items.filterMap Item.node?) (items.filterMap Item.edge?) ∧
      ∀ key, latest? (items.filterMap Item.node?) key = none ↔
        ∀ n, .node n ∈ items → n.key ≠ key := by
  have hsaved : ∀ n ∈ items.filterMap Item.node?, n.bare = n := by
    intro n hn
    obtain ⟨hparents, hchildren⟩ := hbare n (mem_filterMap_node?.mp hn)
    exact bare_eq_self hparents hchildren
  have hinit : Keeps [] [] (Store.memory {}).init := keeps_init (by simp)
  have hinit' : Keeps [] [] (Store.database {}).init := keeps_init (by simp)
  obtain ⟨memory, hmemory, hkept⟩ := hinit.saveAll items
  obtain ⟨database, hdatabase, hkept'⟩ := hinit'.saveAll items
  rw [List.nil_append, List.nil_append] at hkept hkept'
  have hanswers := hkept.answers hsaved
  have hanswers' := hkept'.answers hsaved
  refine ⟨memory, database, hmemory, hdatabase, fun key => ⟨?_, ?_, ?_⟩,
    hkept.allNodes_eq hkept' hsaved, ?_, hanswers, fun key => ?_⟩
  · rw [hanswers.node?, hanswers'.node?]
  · rw [hanswers.callers, hanswers'.callers]
  · rw [hanswers.callees, hanswers'.callees]
  · rw [hanswers.allEdges, hanswers'.allEdges]
  · simp only [latest?_eq_none_iff, mem_filterMap_node?]

/-- A node that is saved twice, an edge that is saved twice, and edges from and to keys that
are never saved. -/
def overwritten : List Item :=
  [.edge ⟨"m.lost", "m.f"⟩,
   .node { key := "m.main", package := "m", name := "draft" },
   .edge ⟨"m.main", "m.f"⟩,
   .edge ⟨"m.main", "m.gone"⟩,
   .node { key := "m.f", package := "m", name := "f" },
   .edge ⟨"m.f", "m.main"⟩,
   .edge ⟨"m.main", "m.f"⟩,
   .node { key := "m.main", package := "m", name := "main" }]

theorem saved_answers_agree_overwritten :
    (∀ n, .node n ∈ overwritten → n.parents = [] ∧ n.children = []) ∧
    ∃ memory database, (Store.memory {}).init.saveAll overwritten = .ok memory ∧
      (Store.database {}).init.saveAll overwritten = .ok database ∧
      memory.allNodes = database.allNodes ∧
      database.callers "m.f" = .ok [{ key := "m.main", package := "m", name := "main" },
        { key := "m.main", package := "m", name := "main" }] ∧
      database.callees "m.main" = .ok [{ key := "m.f", package := "m", name := "f" },
        { key := "m.f", package := "m", name := "f" }] ∧
      database.callees "m.f" = .ok [{ key := "m.main", package := "m", name := "main" }] ∧
      database.node? "m.f" = .ok (some
        { key := "m.f", package := "m", name := "f"
          parents := ["m.lost", "m.main", "m.main"], children := ["m.main"] }) ∧
      database.node? "m.main" = .ok (some
        { key := "m.main", package := "m", name := "main"
          parents := ["m.f"], children := ["m.f", "m.gone", "m.f"] }) ∧
      database.node? "m.lost" = .ok none ∧
      database.allEdges = .ok [⟨"m.lost", "m.f"⟩, ⟨"m.main", "m.f"⟩, ⟨"m.main", "m.gone"⟩,
        ⟨"m.f", "m.main"⟩, ⟨"m.main", "m.f"⟩] := by
  have hbare : ∀ n, .node n ∈ overwritten → n.parents = [] ∧ n.children = [] := by
    simp [overwritten]
  obtain ⟨memory, database, hmemory, hdatabase, hkeys, hnodes, hedges, hanswers, _⟩ :=
    saved_answers_agree overwritten hbare
  refine ⟨hbare, memory, database, hmemory, hdatabase, hnodes, ?_, ?_, ?_, ?_, ?_, ?_, ?_⟩
  · rw [← (hkeys "m.f").2.1, hanswers.callers]
    decide
  · rw [← (hkeys "m.main").2.2, hanswers.callees]
    decide
  · rw [← (hkeys "m.f").2.2, hanswers.callees]
    decide
  · rw [← (hkeys "m.f").1, hanswers.node?]
    decide
  · rw [← (hkeys "m.main").1, hanswers.node?]
    decide
  · rw [← (hkeys "m.lost").1, hanswers.node?]
    decide
  · rw [← hedges, hanswers.allEdges]
    decide

end CallAtlas.Store
