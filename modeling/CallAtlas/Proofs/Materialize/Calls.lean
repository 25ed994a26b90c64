import CallAtlas.Materialize
import CallAtlas.Proofs.Distinct

/-!
# The graph of a list of calls

A graph of keys grows by calls: the caller and the callee get a node unless one with their key
is there, and then the edge is added to the list of edges and to the nodes at its ends. Four
things change at once (the nodes, their keys, the edges, the children and parents), and
functions that share a key share a node. `Shows` says that the four agree: the graph is what its
functions and its edges, as two lists, determine. It is kept by each of the two operations, so
it holds after any calls.
-/

set_option autoImplicit false

namespace CallAtlas

namespace KeyGraph

/-- Adds the node of a function unless there is one with its key. -/
def ensure (g : KeyGraph) (f : Function) : KeyGraph :=
  if (g.node? f.key).isNone then g.addNode (.ofFunction f) else g

/-- Adds a call with the nodes that it needs. -/
def addCall (g : KeyGraph) (c : Function × Function) : KeyGraph :=
  ((g.ensure c.1).ensure c.2).addEdge (.ofCall c)

/-- The functions of a list of calls, the caller before the callee. -/
def endsOf (calls : List (Function × Function)) : List Function := calls.flatMap fun c => [c.1, c.2]

variable {g : KeyGraph} {f : Function} {funcs : List Function} {edges : List GraphEdge}

/-! ## Nodes and their keys -/

theorem node?_isNone_iff {key : String} :
    (g.node? key).isNone = true ↔ key ∉ g.nodes.map GraphNode.key := by
  simp [node?]

theorem ensure_of_mem (h : f.key ∈ g.nodes.map GraphNode.key) : g.ensure f = g :=
  if_neg fun hnone => node?_isNone_iff.mp hnone h

theorem ensure_of_notMem (h : f.key ∉ g.nodes.map GraphNode.key) :
    g.ensure f = g.addNode (.ofFunction f) :=
  if_pos (node?_isNone_iff.mpr h)

@[simp] theorem ensure_edges : (g.ensure f).edges = g.edges := by
  unfold ensure
  split
  · rfl
  · rfl

theorem length_nodes_le_ensure : g.nodes.length ≤ (g.ensure f).nodes.length := by
  unfold ensure
  split
  · simp [addNode]
  · exact Nat.le_refl _

@[simp] theorem length_nodes_addEdge (e : GraphEdge) :
    (g.addEdge e).nodes.length = g.nodes.length := by
  simp [addEdge]

@[simp] theorem linked_key (e : GraphEdge) (n : GraphNode) : (linked e n).key = n.key := rfl

/-! ## What a graph shows -/

/-- The graph has the edges of one list, and as its nodes the functions of another, each under its
key where the key comes first. The nodes know their edges, in order. -/
structure Shows (funcs : List Function) (edges : List GraphEdge) (g : KeyGraph) : Prop where
  edges_eq : g.edges = edges
  keys_eq : g.nodes.map GraphNode.key = (funcs.map Function.key).eraseDups
  first : ∀ n ∈ g.nodes, ∃ f, funcs.find? (fun f => f.key == n.key) = some f ∧
    n.package = f.package.getD "" ∧ n.name = f.name
  children : ∀ n ∈ g.nodes,
    n.children = (edges.filter fun e => e.caller == n.key).map GraphEdge.callee
  parents : ∀ n ∈ g.nodes,
    n.parents = (edges.filter fun e => e.callee == n.key).map GraphEdge.caller
  ends : ∀ e ∈ edges, e.caller ∈ funcs.map Function.key ∧ e.callee ∈ funcs.map Function.key

theorem shows_empty : Shows [] [] ∅ where
  edges_eq := rfl
  keys_eq := rfl
  first _ h := absurd h List.not_mem_nil
  children _ h := absurd h List.not_mem_nil
  parents _ h := absurd h List.not_mem_nil
  ends _ h := absurd h List.not_mem_nil

theorem Shows.mem_keys (h : Shows funcs edges g) {key : String} :
    key ∈ g.nodes.map GraphNode.key ↔ key ∈ funcs.map Function.key := by
  rw [h.keys_eq, List.mem_eraseDups]

theorem Shows.concat_of_mem (h : Shows funcs edges g) (hmem : f.key ∈ funcs.map Function.key) :
    Shows (funcs ++ [f]) edges g where
  edges_eq := h.edges_eq
  keys_eq := by
    rw [List.map_append, List.map_singleton, eraseDups_concat_of_mem hmem]
    exact h.keys_eq
  first n hn := by
    obtain ⟨f', hf', hfields⟩ := h.first n hn
    exact ⟨f', by rw [List.find?_append, hf', Option.some_or], hfields⟩
  children := h.children
  parents := h.parents
  ends e he := by
    obtain ⟨hcaller, hcallee⟩ := h.ends e he
    rw [List.map_append]
    exact ⟨List.mem_append_left _ hcaller, List.mem_append_left _ hcallee⟩

theorem filter_end_eq_nil {keys : List String} {key : String} {side : GraphEdge → String}
    (hends : ∀ e ∈ edges, side e ∈ keys) (hnew : key ∉ keys) :
    (edges.filter fun e => side e == key) = [] := by
  rw [List.filter_eq_nil_iff]
  intro e he heq
  exact hnew (beq_iff_eq.mp heq ▸ hends e he)

-- The new node has no edges, and that is right because the edges so far are between older keys.
theorem Shows.addNode (h : Shows funcs edges g) (hnew : f.key ∉ funcs.map Function.key) :
    Shows (funcs ++ [f]) edges (g.addNode (.ofFunction f)) where
  edges_eq := h.edges_eq
  keys_eq := by
    rw [List.map_append, List.map_singleton, eraseDups_concat_of_notMem hnew, ← h.keys_eq]
    exact List.map_append
  first n hn := by
    rcases List.mem_append.mp hn with hn | hn
    · obtain ⟨f', hf', hfields⟩ := h.first n hn
      exact ⟨f', by rw [List.find?_append, hf', Option.some_or], hfields⟩
    · rw [List.mem_singleton.mp hn]
      have hnone : funcs.find? (fun f' => f'.key == f.key) = none := by
        rw [List.find?_eq_none]
        intro f' hf' heq
        exact hnew (beq_iff_eq.mp heq ▸ List.mem_map_of_mem hf')
      refine ⟨f, ?_, rfl, rfl⟩
      rw [List.find?_append]
      simp [GraphNode.ofFunction, hnone]
  children n hn := by
    rcases List.mem_append.mp hn with hn | hn
    · exact h.children n hn
    · rw [List.mem_singleton.mp hn]
      have hnone := filter_end_eq_nil (fun e he => (h.ends e he).1) hnew
      exact (congrArg (List.map GraphEdge.callee) hnone).symm
  parents n hn := by
    rcases List.mem_append.mp hn with hn | hn
    · exact h.parents n hn
    · rw [List.mem_singleton.mp hn]
      have hnone := filter_end_eq_nil (fun e he => (h.ends e he).2) hnew
      exact (congrArg (List.map GraphEdge.caller) hnone).symm
  ends e he := by
    obtain ⟨hcaller, hcallee⟩ := h.ends e he
    rw [List.map_append]
    exact ⟨List.mem_append_left _ hcaller, List.mem_append_left _ hcallee⟩

theorem Shows.ensure (h : Shows funcs edges g) (f : Function) :
    Shows (funcs ++ [f]) edges (g.ensure f) := by
  by_cases hmem : f.key ∈ funcs.map Function.key
  · rw [ensure_of_mem (h.mem_keys.mpr hmem)]
    exact h.concat_of_mem hmem
  · rw [ensure_of_notMem fun hk => hmem (h.mem_keys.mp hk)]
    exact h.addNode hmem

/-- An edge between keys that are there is one more edge, one more child and one more parent. A call
of a function by itself is all three at one node. -/
theorem Shows.addEdge (h : Shows funcs edges g) {e : GraphEdge}
    (hcaller : e.caller ∈ funcs.map Function.key) (hcallee : e.callee ∈ funcs.map Function.key) :
    Shows funcs (edges ++ [e]) (g.addEdge e) where
  edges_eq := by rw [← h.edges_eq]; rfl
  keys_eq := by
    rw [← h.keys_eq]
    simp [KeyGraph.addEdge]
  first n hn := by
    obtain ⟨old, hold, rfl⟩ := List.mem_map.mp hn
    exact h.first old hold
  children n hn := by
    obtain ⟨old, hold, rfl⟩ := List.mem_map.mp hn
    rw [List.filter_append, List.map_append, linked_key, ← h.children old hold]
    by_cases heq : old.key = e.caller
    · simp [linked, heq]
    · simp [linked, heq, Ne.symm heq]
  parents n hn := by
    obtain ⟨old, hold, rfl⟩ := List.mem_map.mp hn
    rw [List.filter_append, List.map_append, linked_key, ← h.parents old hold]
    by_cases heq : old.key = e.callee
    · simp [linked, heq]
    · simp [linked, heq, Ne.symm heq]
  ends e' he := by
    rcases List.mem_append.mp he with he | he
    · exact h.ends e' he
    · rw [List.mem_singleton.mp he]
      exact ⟨hcaller, hcallee⟩

/-! ## Calls -/

theorem Shows.addCall (h : Shows funcs edges g) (c : Function × Function) :
    Shows (funcs ++ [c.1, c.2]) (edges ++ [.ofCall c]) (g.addCall c) := by
  have hends := (h.ensure c.1).ensure c.2
  rw [List.append_assoc] at hends
  refine hends.addEdge ?_ ?_
  · simp [GraphEdge.ofCall]
  · simp [GraphEdge.ofCall]

theorem shows_foldl_addCall (calls : List (Function × Function)) :
    Shows (endsOf calls) (calls.map .ofCall) (calls.foldl addCall ∅) := by
  have hfold : ∀ funcs edges g, Shows funcs edges g →
      Shows (funcs ++ endsOf calls) (edges ++ calls.map .ofCall) (calls.foldl addCall g) := by
    induction calls with
    | nil =>
      intro funcs edges g h
      simpa [endsOf] using h
    | cons c calls ih =>
      intro funcs edges g h
      have hrest := ih _ _ _ (h.addCall c)
      rwa [List.append_assoc, List.append_assoc] at hrest
  exact hfold [] [] ∅ shows_empty

/-- A graph is no larger than another one. -/
def Within (g g' : KeyGraph) : Prop :=
  g.nodes.length ≤ g'.nodes.length ∧ g.edges.length ≤ g'.edges.length

theorem Within.trans {g g' g'' : KeyGraph} (h : Within g g') (h' : Within g' g'') : Within g g'' :=
  ⟨Nat.le_trans h.1 h'.1, Nat.le_trans h.2 h'.2⟩

theorem within_ensure (g : KeyGraph) (f : Function) : Within g (g.ensure f) :=
  ⟨length_nodes_le_ensure, Nat.le_of_eq (by rw [ensure_edges])⟩

theorem within_addEdge (g : KeyGraph) (e : GraphEdge) : Within g (g.addEdge e) :=
  ⟨Nat.le_of_eq (by rw [length_nodes_addEdge]), by simp [addEdge]⟩

theorem within_addCall (g : KeyGraph) (c : Function × Function) : Within g (g.addCall c) :=
  ((within_ensure g c.1).trans (within_ensure _ c.2)).trans (within_addEdge _ _)

theorem within_foldl_addCall (calls : List (Function × Function)) (g : KeyGraph) :
    Within g (calls.foldl addCall g) := by
  induction calls generalizing g with
  | nil => exact ⟨Nat.le_refl _, Nat.le_refl _⟩
  | cons c calls ih => exact (within_addCall g c).trans (ih _)

end KeyGraph

end CallAtlas
