import CallAtlas.Materialize
import CallAtlas.Proofs.Table
import CallAtlas.Proofs.Text
import CallAtlas.Store.Basic
import Mathlib.Data.List.Nodup

/-!
# What a store keeps

Nodes and edges are saved by two writers, and nobody says in which order a node and an edge arrive.
It does not matter: what a store keeps is given by the nodes that were saved, in their order, and by
the edges that were saved, in theirs (`Keeps`). A node changes only the first of the two lists and
an edge only the second, so any interleaving of the two leads to the same pair (`Keeps.saveAll`).

The store in memory keeps a table and sorts it when it is listed; the one in tables keeps its rows
sorted. The one keeps a list of edges; the other keeps rows, and only the ids in them tell which
edge was saved first (`EdgeRow.byId_eq_reverse`). Of both, what is answered is read off the two
lists: a look-up finds the last node under a key, and callers and callees come from the edges alone.
-/

set_option autoImplicit false

namespace CallAtlas.Store

/-- The last of some nodes with a key. -/
def latest? (nodes : List GraphNode) (key : String) : Option GraphNode :=
  nodes.reverse.find? fun n => n.key == key

/-- Saves an item. -/
def save (store : Store) : Item → Except StoreError Store
  | .node node => store.saveNode node
  | .edge edge => store.saveEdge edge

/-- Saves items one after the other. -/
def saveAll (store : Store) (items : List Item) : Except StoreError Store := items.foldlM save store

variable {nodes : List GraphNode} {edges : List GraphEdge} {key : String}

theorem mem_filterMap_node? {items : List Item} {n : GraphNode} :
    n ∈ items.filterMap Item.node? ↔ .node n ∈ items := by
  rw [List.mem_filterMap]
  constructor
  · rintro ⟨item, hitem, hnode⟩
    cases item with
    | node m => exact Option.some.inj hnode ▸ hitem
    | edge e => cases hnode
  · intro hitem
    exact ⟨.node n, hitem, rfl⟩

/-! ## Nodes by their keys -/

theorem latest?_concat (node : GraphNode) :
    latest? (nodes ++ [node]) key = if node.key = key then some node else latest? nodes key := by
  by_cases h : node.key = key
  · simp [latest?, h]
  · simp [latest?, h]

theorem latest?_eq_none_iff : latest? nodes key = none ↔ ∀ n ∈ nodes, n.key ≠ key := by
  simp [latest?]

theorem map_bare_latest? (hbare : ∀ n ∈ nodes, n.bare = n) (key : String) :
    (latest? nodes key).map GraphNode.bare = latest? nodes key := by
  cases hfound : latest? nodes key with
  | none => rfl
  | some n =>
    have hmem : n ∈ nodes := List.mem_reverse.mp (List.mem_of_find?_eq_some hfound)
    rw [Option.map_some, hbare n hmem]

/-- Where keys stand once, a search for a key finds the node that has it. -/
theorem find?_key_eq_some_iff (h : (nodes.map GraphNode.key).Nodup) {n : GraphNode} :
    nodes.find? (fun m => m.key == key) = some n ↔ n ∈ nodes ∧ n.key = key := by
  constructor
  · intro hfind
    exact ⟨List.mem_of_find?_eq_some hfind, by simpa using List.find?_some hfind⟩
  · rintro ⟨hmem, rfl⟩
    induction nodes with
    | nil => exact absurd hmem List.not_mem_nil
    | cons m rest ih =>
      rw [List.map_cons, List.nodup_cons] at h
      rcases List.mem_cons.mp hmem with rfl | hmem
      · simp
      · have hne : m.key ≠ n.key := fun heq => h.1 (heq ▸ List.mem_map_of_mem hmem)
        rw [List.find?_cons_of_neg (by simpa using hne)]
        exact ih h.2 hmem

theorem latest?_eq_find? (h : (nodes.map GraphNode.key).Nodup) (key : String) :
    latest? nodes key = nodes.find? fun n => n.key == key := by
  have hreverse : (nodes.reverse.map GraphNode.key).Nodup := by
    rw [List.map_reverse]
    exact List.nodup_reverse.mpr h
  refine Option.ext fun n => ?_
  rw [latest?, find?_key_eq_some_iff hreverse, find?_key_eq_some_iff h, List.mem_reverse]

/-! ## Rows in the order of keys -/

/-- The keys of the rows increase. -/
def Ascending (rows : List GraphNode) : Prop := rows.Pairwise fun a b => a.key < b.key

theorem Ascending.nodup_keys {rows : List GraphNode} (h : Ascending rows) :
    (rows.map GraphNode.key).Nodup := by
  refine List.pairwise_map.mpr (h.imp ?_)
  intro a b hlt heq
  exact String.lt_irrefl a.key (heq ▸ hlt)

theorem mem_upsert {node row : GraphNode} {rows : List GraphNode}
    (h : row ∈ Tables.upsert node rows) : row = node ∨ row ∈ rows := by
  fun_induction Tables.upsert node rows with
  | case1 => exact Or.inl (List.mem_singleton.mp h)
  | case2 first rest hlt => exact List.mem_cons.mp h
  | case3 first rest hlt heq =>
    rcases List.mem_cons.mp h with h | h
    · exact Or.inl h
    · exact Or.inr (List.mem_cons_of_mem _ h)
  | case4 first rest hlt hne ih =>
    rcases List.mem_cons.mp h with rfl | h
    · exact Or.inr List.mem_cons_self
    · rcases ih h with h | h
      · exact Or.inl h
      · exact Or.inr (List.mem_cons_of_mem _ h)

theorem Ascending.upsert {rows : List GraphNode} (h : Ascending rows) (node : GraphNode) :
    Ascending (Tables.upsert node rows) := by
  fun_induction Tables.upsert node rows with
  | case1 => exact List.pairwise_singleton _ _
  | case2 first rest hlt =>
    obtain ⟨hfirst, _⟩ := List.pairwise_cons.mp h
    refine List.pairwise_cons.mpr ⟨fun row hrow => ?_, h⟩
    rcases List.mem_cons.mp hrow with rfl | hrow
    · exact hlt
    · exact String.lt_trans hlt (hfirst row hrow)
  | case3 first rest hlt heq =>
    obtain ⟨hfirst, hrest⟩ := List.pairwise_cons.mp h
    refine List.pairwise_cons.mpr ⟨fun row hrow => ?_, hrest⟩
    rw [eq_of_beq heq]
    exact hfirst row hrow
  | case4 first rest hlt hne ih =>
    obtain ⟨hfirst, hrest⟩ := List.pairwise_cons.mp h
    refine List.pairwise_cons.mpr ⟨fun row hrow => ?_, ih hrest⟩
    rcases mem_upsert hrow with rfl | hrow
    · have hkeys : row.key ≠ first.key := by simpa using hne
      grind
    · exact hfirst row hrow

theorem find?_upsert (node : GraphNode) (rows : List GraphNode) (key : String) :
    (Tables.upsert node rows).find? (fun row => row.key == key) =
      if node.key = key then some node else rows.find? fun row => row.key == key := by
  fun_induction Tables.upsert node rows with
  | case1 => simp [List.find?_cons]; grind
  | case2 first rest hlt => simp only [List.find?_cons]; grind
  | case3 first rest hlt heq => simp only [List.find?_cons]; grind
  | case4 first rest hlt hne ih => simp only [List.find?_cons]; grind

/-! ## The two stores -/

/-- A table with every node under its own key, and the edges. -/
structure Memory.Keeps (nodes : List GraphNode) (edges : List GraphEdge) (s : Memory) : Prop where
  edges_eq : s.edges = edges
  nodup : s.nodes.keys.Nodup
  keyed : ∀ e ∈ s.nodes.entries, e.2.key = e.1
  get?_eq : ∀ key, s.nodes.get? key = latest? nodes key

/-- Rows without callers and callees, and rows of the edges, the newest first, with ids that
decrease from the last one that was given. -/
structure Tables.Keeps (nodes : List GraphNode) (edges : List GraphEdge) (t : Tables) : Prop where
  edges_eq : t.edges.reverse.map EdgeRow.edge = edges
  descending : t.edges.Pairwise fun a b => b.id < a.id
  id_le : ∀ row ∈ t.edges, row.id ≤ t.lastId
  ascending : Ascending t.nodes
  row?_eq : ∀ key, t.row? key = (latest? nodes key).map GraphNode.bare

/-- The store keeps the nodes and edges of two lists, and its tables are there. -/
def Keeps (nodes : List GraphNode) (edges : List GraphEdge) : Store → Prop
  | .memory s => s.Keeps nodes edges
  | .database d => ∃ t, d.tables = some t ∧ t.Keeps nodes edges

theorem Memory.Keeps.saveNode {s : Memory} (h : s.Keeps nodes edges) (node : GraphNode) :
    (s.saveNode node).Keeps (nodes ++ [node]) edges where
  edges_eq := h.edges_eq
  nodup := Table.nodup_keys_insert h.nodup
  keyed e he := by
    rcases Table.mem_entries_insert he with rfl | he
    · rfl
    · exact h.keyed e he
  get?_eq key := by
    rw [latest?_concat]
    by_cases hkey : node.key = key
    · rw [if_pos hkey, ← hkey]
      exact Table.get?_insert_self
    · rw [if_neg hkey, ← h.get?_eq]
      exact Table.get?_insert_of_ne (Ne.symm hkey)

theorem Memory.Keeps.saveEdge {s : Memory} (h : s.Keeps nodes edges) (edge : GraphEdge) :
    (s.saveEdge edge).Keeps nodes (edges ++ [edge]) where
  edges_eq := by rw [Memory.saveEdge, h.edges_eq]
  nodup := h.nodup
  keyed := h.keyed
  get?_eq := h.get?_eq

theorem Tables.Keeps.saveNode {t : Tables} (h : t.Keeps nodes edges) (node : GraphNode) :
    (t.saveNode node).Keeps (nodes ++ [node]) edges where
  edges_eq := h.edges_eq
  descending := h.descending
  id_le := h.id_le
  ascending := h.ascending.upsert _
  row?_eq key := by
    have hrow := h.row?_eq key
    simp only [row?] at hrow
    rw [latest?_concat, row?, Tables.saveNode, find?_upsert, hrow]
    by_cases hkey : node.key = key
    · simp [GraphNode.bare, hkey]
    · simp [GraphNode.bare, hkey]

/-- The next id is larger than all others, so the row of the edge comes last by id. -/
theorem Tables.Keeps.saveEdge {t : Tables} (h : t.Keeps nodes edges) (edge : GraphEdge) :
    (t.saveEdge edge).Keeps nodes (edges ++ [edge]) where
  edges_eq := by
    rw [Tables.saveEdge, List.reverse_cons, List.map_append, h.edges_eq]
    rfl
  descending := List.pairwise_cons.mpr ⟨fun row hrow => Nat.lt_succ_of_le (h.id_le row hrow),
    h.descending⟩
  id_le row hrow := by
    rcases List.mem_cons.mp hrow with rfl | hrow
    · exact Nat.le_refl _
    · exact Nat.le_succ_of_le (h.id_le row hrow)
  ascending := h.ascending
  row?_eq := h.row?_eq

theorem Keeps.saveNode {store : Store} (h : Keeps nodes edges store) (node : GraphNode) :
    ∃ store', store.saveNode node = .ok store' ∧ Keeps (nodes ++ [node]) edges store' := by
  cases store with
  | memory s => exact ⟨_, rfl, Memory.Keeps.saveNode h node⟩
  | database d =>
    obtain ⟨t, ht, hkeeps⟩ := h
    refine ⟨.database { tables := some (t.saveNode node) }, ?_, _, rfl, hkeeps.saveNode node⟩
    simp only [Store.saveNode, Database.update, Database.query, ht]
    rfl

theorem Keeps.saveEdge {store : Store} (h : Keeps nodes edges store) (edge : GraphEdge) :
    ∃ store', store.saveEdge edge = .ok store' ∧ Keeps nodes (edges ++ [edge]) store' := by
  cases store with
  | memory s => exact ⟨_, rfl, Memory.Keeps.saveEdge h edge⟩
  | database d =>
    obtain ⟨t, ht, hkeeps⟩ := h
    refine ⟨.database { tables := some (t.saveEdge edge) }, ?_, _, rfl, hkeeps.saveEdge edge⟩
    simp only [Store.saveEdge, Database.update, Database.query, ht]
    rfl

/-- In whatever order items of both kinds are saved, the nodes among them and the edges among them
are kept, each kind in its order. -/
theorem Keeps.saveAll {store : Store} (h : Keeps nodes edges store) (items : List Item) :
    ∃ store', store.saveAll items = .ok store' ∧
      Keeps (nodes ++ items.filterMap Item.node?) (edges ++ items.filterMap Item.edge?) store' := by
  induction items generalizing store nodes edges with
  | nil => exact ⟨store, rfl, by simpa using h⟩
  | cons item rest ih =>
    cases item with
    | node node =>
      obtain ⟨next, hnext, hkeeps⟩ := h.saveNode node
      obtain ⟨last, hlast, hend⟩ := ih hkeeps
      refine ⟨last, ?_, ?_⟩
      · rw [Store.saveAll, List.foldlM_cons, save, hnext]
        exact hlast
      · rw [List.append_assoc] at hend
        exact hend
    | edge edge =>
      obtain ⟨next, hnext, hkeeps⟩ := h.saveEdge edge
      obtain ⟨last, hlast, hend⟩ := ih hkeeps
      refine ⟨last, ?_, ?_⟩
      · rw [Store.saveAll, List.foldlM_cons, save, hnext]
        exact hlast
      · rw [List.append_assoc edges] at hend
        exact hend

theorem keeps_init {store : Store} (h : store ∈ [Store.memory {}, Store.database {}]) :
    Keeps [] [] store.init := by
  rcases List.mem_cons.mp h with rfl | h
  · exact ⟨rfl, List.nodup_nil, fun e he => absurd he List.not_mem_nil, fun key => rfl⟩
  · rw [List.mem_singleton.mp h]
    exact ⟨{}, rfl, rfl, List.Pairwise.nil, fun row hrow => absurd hrow List.not_mem_nil,
      List.Pairwise.nil, fun key => rfl⟩

/-! ## Answers from the edges -/

/-- Rows whose ids decrease are turned around by sorting. -/
theorem EdgeRow.byId_eq_reverse {rows : List EdgeRow} (h : rows.Pairwise fun a b => b.id < a.id) :
    byId rows = rows.reverse := by
  have hperm : (byId rows).Perm rows.reverse :=
    (List.mergeSort_perm rows _).trans rows.reverse_perm.symm
  have hsorted : (byId rows).Pairwise fun a b => a.id ≤ b.id := by
    refine (List.pairwise_mergeSort ?_ ?_ rows).imp of_decide_eq_true
    · simp only [decide_eq_true_eq]
      omega
    · simp only [Bool.or_eq_true, decide_eq_true_eq]
      omega
  have hreverse : rows.reverse.Pairwise fun a b => a.id ≤ b.id :=
    List.pairwise_reverse.mpr (h.imp Nat.le_of_lt)
  have hnodup : (rows.map EdgeRow.id).Nodup := List.pairwise_map.mpr (h.imp Nat.ne_of_gt)
  refine hperm.eq_of_pairwise (fun a b ha hb hab hba => ?_) hsorted hreverse
  exact List.inj_on_of_nodup_map hnodup (List.mem_mergeSort.mp ha) (List.mem_reverse.mp hb)
    (Nat.le_antisymm hab hba)

theorem Tables.Keeps.allEdges {t : Tables} (h : t.Keeps nodes edges) : t.allEdges = edges := by
  rw [Tables.allEdges, EdgeRow.byId_eq_reverse h.descending, h.edges_eq]

/-- A column of the rows is a column of the edges, in the order in which they were saved. -/
theorem Tables.Keeps.edgeColumn {t : Tables} (h : t.Keeps nodes edges)
    (select filter : GraphEdge → String) (key : String) :
    t.edgeColumn (select ∘ EdgeRow.edge) (filter ∘ EdgeRow.edge) key =
      (edges.filter fun e => filter e == key).map select := by
  rw [← h.edges_eq, List.filter_map, List.map_map, List.filter_reverse,
    ← EdgeRow.byId_eq_reverse (h.descending.sublist List.filter_sublist)]
  rfl

theorem Keeps.allEdges {store : Store} (h : Keeps nodes edges store) :
    store.allEdges = .ok edges := by
  cases store with
  | memory s => exact congrArg Except.ok h.edges_eq
  | database d =>
    obtain ⟨t, ht, hkeeps⟩ := h
    simp only [Store.allEdges, Database.query, ht, hkeeps.allEdges]

theorem Keeps.node? {store : Store} (h : Keeps nodes edges store) (key : String) :
    store.node? key = .ok ((latest? nodes key).map fun n =>
      { n with
        parents := (edges.filter fun e => e.callee == key).map GraphEdge.caller
        children := (edges.filter fun e => e.caller == key).map GraphEdge.callee }) := by
  cases store with
  | memory s =>
    rw [Store.node?, Memory.node?, h.get?_eq, Memory.callerKeys, Memory.calleeKeys, h.edges_eq]
  | database d =>
    obtain ⟨t, ht, hkeeps⟩ := h
    have hparents := hkeeps.edgeColumn GraphEdge.caller GraphEdge.callee key
    have hchildren := hkeeps.edgeColumn GraphEdge.callee GraphEdge.caller key
    simp only [Store.node?, Database.query, ht, Tables.node?, hkeeps.row?_eq, Option.map_map,
      ← hparents, ← hchildren]
    rfl

/-! ## All nodes -/

theorem ascending_sorted {rows : List GraphNode} (h : (rows.map GraphNode.key).Nodup) :
    Ascending (Memory.sorted rows) := by
  have hle : (Memory.sorted rows).Pairwise fun a b => a.key ≤ b.key :=
    Text.pairwise_mergeSort_leBy GraphNode.key rows
  have hne : (Memory.sorted rows).Pairwise fun a b => a.key ≠ b.key := by
    refine List.pairwise_map.mp (?_ : ((Memory.sorted rows).map GraphNode.key).Nodup)
    exact ((List.mergeSort_perm rows _).map GraphNode.key).nodup_iff.mpr h
  refine (hle.and hne).imp ?_
  rintro a b ⟨hab, hneq⟩
  grind

theorem Memory.Keeps.nodup_keys_values {s : Memory} (h : s.Keeps nodes edges) :
    (s.nodes.values.map GraphNode.key).Nodup := by
  have hkeys : s.nodes.values.map GraphNode.key = s.nodes.keys := by
    rw [Table.values, Table.keys, List.map_map]
    exact List.map_congr_left fun e he => h.keyed e he
  exact hkeys ▸ h.nodup

theorem Memory.Keeps.mem_values {s : Memory} (h : s.Keeps nodes edges) {n : GraphNode} :
    n ∈ s.nodes.values ↔ latest? nodes n.key = some n := by
  rw [← h.get?_eq]
  constructor
  · intro hn
    obtain ⟨e, he, rfl⟩ := List.mem_map.mp hn
    refine Table.get?_of_mem_entries h.nodup ?_
    rw [h.keyed e he]
    exact he
  · intro hget
    exact List.mem_map.mpr ⟨_, Table.mem_entries_of_get? hget, rfl⟩

theorem Tables.Keeps.mem_nodes {t : Tables} (h : t.Keeps nodes edges) {row : GraphNode} :
    row ∈ t.nodes ↔ (latest? nodes row.key).map GraphNode.bare = some row := by
  rw [← h.row?_eq, Tables.row?, find?_key_eq_some_iff h.ascending.nodup_keys]
  exact ⟨fun hn => ⟨hn, rfl⟩, fun hn => hn.1⟩

/-- Both stores list the same nodes, in the order of keys. -/
theorem Keeps.allNodes {store : Store} (h : Keeps nodes edges store)
    (hbare : ∀ n ∈ nodes, n.bare = n) :
    ∃ rows, store.allNodes = .ok rows ∧ Ascending rows ∧
      ∀ n, n ∈ rows ↔ latest? nodes n.key = some n := by
  cases store with
  | memory s =>
    have hkeeps : s.Keeps nodes edges := h
    refine ⟨_, rfl, ascending_sorted hkeeps.nodup_keys_values, fun n => ?_⟩
    rw [Memory.allNodes, Memory.sorted, List.mem_mergeSort]
    exact hkeeps.mem_values
  | database d =>
    obtain ⟨t, ht, hkeeps⟩ := h
    refine ⟨t.nodes, by simp only [Store.allNodes, Database.query, ht],
      hkeeps.ascending, fun n => ?_⟩
    -- a row is saved bare, which makes no difference to a node that was bare
    rw [hkeeps.mem_nodes, map_bare_latest? hbare]

end CallAtlas.Store
