import CallAtlas.Analysis.Hierarchy
import Mathlib.Data.List.Nodup
import Mathlib.Data.List.Perm.Basic

/-!
# Adding to a call graph

Nodes and edges are only ever added. An edge brings its ends along, so an edge between nodes that
are there changes the edges alone; this is the case in which the analyses that start from all
functions, and the one that reaches a function before it links it, use it.

A graph that is built from nothing is therefore well formed, and this is all that a walk over it
needs to know about how it was built.
-/

set_option autoImplicit false

namespace CallAtlas

namespace CallGraph

variable {g : CallGraph} {func : FuncId} {edge : CallEdge}

theorem contains_iff : g.contains func = true ↔ func ∈ g.nodes := by
  simp [contains]

theorem addNode_of_mem (h : func ∈ g.nodes) : g.addNode func = g := by
  rw [addNode, if_pos (contains_iff.mpr h)]

theorem addNode_of_notMem (h : func ∉ g.nodes) :
    g.addNode func = { g with nodes := g.nodes ++ [func] } := by
  rw [addNode, if_neg (fun hc => h (contains_iff.mp hc))]

@[simp] theorem addNode_edges : (g.addNode func).edges = g.edges := by
  unfold addNode
  split <;> rfl

@[simp] theorem addEdge_edges : (g.addEdge edge).edges = g.edges ++ [edge] := by
  simp [addEdge]

theorem addEdge_of_mem (hcaller : edge.caller ∈ g.nodes) (hcallee : edge.callee ∈ g.nodes) :
    g.addEdge edge = { g with edges := g.edges ++ [edge] } := by
  rw [addEdge, addNode_of_mem hcaller, addNode_of_mem hcallee]

/-- Functions that are all new, and each of which stands there once, become nodes in their order. -/
theorem foldl_addNode {funcs : List FuncId} {g : CallGraph} (h : (g.nodes ++ funcs).Nodup) :
    funcs.foldl addNode g = { g with nodes := g.nodes ++ funcs } := by
  induction funcs generalizing g with
  | nil => simp
  | cons func rest ih =>
    have hnew : func ∉ g.nodes := fun hmem =>
      List.disjoint_of_nodup_append h hmem List.mem_cons_self
    rw [List.append_cons] at h
    rw [List.foldl_cons, addNode_of_notMem hnew, ih h, ← List.append_cons]

theorem foldl_addEdge_edges (edges : List CallEdge) (g : CallGraph) :
    (edges.foldl addEdge g).edges = g.edges ++ edges := by
  induction edges generalizing g with
  | nil => simp
  | cons edge rest ih =>
    rw [List.foldl_cons, ih, addEdge_edges, List.append_assoc]
    rfl

/-! ## Graphs that are built from nothing -/

/-- No node stands twice, and the ends of every edge are nodes. -/
structure WellFormed (g : CallGraph) : Prop where
  nodup : g.nodes.Nodup
  caller_mem : ∀ e ∈ g.edges, e.caller ∈ g.nodes
  callee_mem : ∀ e ∈ g.edges, e.callee ∈ g.nodes

/-- What is added to a graph. -/
inductive Insertion where
  | node (func : FuncId)
  | edge (edge : CallEdge)
deriving DecidableEq, Repr, Inhabited

/-- The edge that is added. -/
def Insertion.edge? : Insertion → Option CallEdge
  | .node _ => none
  | .edge e => some e

def insert (g : CallGraph) : Insertion → CallGraph
  | .node func => g.addNode func
  | .edge edge => g.addEdge edge

/-- The graph after some insertions. -/
def ofInsertions (insertions : List Insertion) : CallGraph := insertions.foldl insert ∅

theorem mem_addNode {f : FuncId} : f ∈ (g.addNode func).nodes ↔ f ∈ g.nodes ∨ f = func := by
  by_cases h : func ∈ g.nodes
  · rw [addNode_of_mem h]
    exact ⟨Or.inl, fun hf => hf.elim id fun hf => hf ▸ h⟩
  · rw [addNode_of_notMem h]
    simp

theorem wellFormed_empty : WellFormed ∅ :=
  ⟨List.nodup_nil, fun _ h => absurd h List.not_mem_nil, fun _ h => absurd h List.not_mem_nil⟩

theorem WellFormed.addNode (hg : g.WellFormed) (func : FuncId) : (g.addNode func).WellFormed := by
  refine ⟨?_, fun e he => ?_, fun e he => ?_⟩
  · by_cases h : func ∈ g.nodes
    · rw [addNode_of_mem h]
      exact hg.nodup
    · rw [addNode_of_notMem h]
      show (g.nodes ++ [func]).Nodup
      rw [← List.concat_eq_append]
      exact hg.nodup.concat h
  · rw [addNode_edges] at he
    exact mem_addNode.mpr (Or.inl (hg.caller_mem e he))
  · rw [addNode_edges] at he
    exact mem_addNode.mpr (Or.inl (hg.callee_mem e he))

theorem WellFormed.addEdge (hg : g.WellFormed) (edge : CallEdge) : (g.addEdge edge).WellFormed := by
  have hends := (hg.addNode edge.caller).addNode edge.callee
  refine ⟨hends.nodup, fun e he => ?_, fun e he => ?_⟩
  · rcases List.mem_append.mp he with he | he
    · exact hends.caller_mem e he
    · rw [List.mem_singleton.mp he]
      exact mem_addNode.mpr (Or.inl (mem_addNode.mpr (Or.inr rfl)))
  · rcases List.mem_append.mp he with he | he
    · exact hends.callee_mem e he
    · rw [List.mem_singleton.mp he]
      exact mem_addNode.mpr (Or.inr rfl)

theorem WellFormed.insert (hg : g.WellFormed) (i : Insertion) : (g.insert i).WellFormed := by
  cases i with
  | node func => exact hg.addNode func
  | edge edge => exact hg.addEdge edge

theorem wellFormed_ofInsertions (insertions : List Insertion) :
    (ofInsertions insertions).WellFormed :=
  List.foldlRecOn insertions insert wellFormed_empty fun _ hg i _ => hg.insert i

theorem ofInsertions_edges (insertions : List Insertion) :
    (ofInsertions insertions).edges = insertions.filterMap Insertion.edge? := by
  have hfold : ∀ g, (insertions.foldl insert g).edges =
      g.edges ++ insertions.filterMap Insertion.edge? := by
    induction insertions with
    | nil => intro g; simp
    | cons i rest ih =>
      intro g
      rw [List.foldl_cons, ih]
      cases i with
      | node func => simp [insert, Insertion.edge?, List.filterMap_cons]
      | edge edge => simp [insert, Insertion.edge?]
  exact hfold ∅

end CallGraph

namespace Program

/-- The edges of a graph on all functions are those of its sites, in the order of the functions and
of the sites in each. -/
theorem graphBy_edges (p : Program) (targets : CallSite → List FuncId) :
    (p.graphBy targets).edges = p.edgesBy targets := by
  rw [graphBy, CallGraph.foldl_addEdge_edges]
  rfl

/-- Something is in the facts of some number; a number without facts has none. -/
theorem exists_factsOf_iff {p : Program} {q : Facts → FuncId → Prop} (hq : ∀ func, ¬ q {} func) :
    (∃ facts func, p.facts[func]? = some facts ∧ q facts func) ↔ ∃ func,
      q (p.factsOf func) func := by
  constructor
  · rintro ⟨facts, func, hfacts, h⟩
    exact ⟨func, by rwa [factsOf, hfacts, Option.getD_some]⟩
  · rintro ⟨func, h⟩
    cases hfacts : p.facts[func]? with
    | none =>
      rw [factsOf, hfacts] at h
      exact absurd h (hq func)
    | some facts => exact ⟨facts, func, hfacts, by rwa [factsOf, hfacts, Option.getD_some] at h⟩

theorem mem_edgesBy {p : Program} {targets : CallSite → List FuncId} {edge : CallEdge} :
    edge ∈ p.edgesBy targets ↔ ∃ site ∈ (p.factsOf edge.caller).sites,
      edge.callee ∈ targets site ∧ edge.line = site.line := by
  simp only [edgesBy, List.mem_flatMap, Prod.exists, List.mem_zipIdx_iff_getElem?]
  rw [exists_factsOf_iff (by simp)]
  constructor
  · rintro ⟨caller, site, hsite, hedge⟩
    obtain ⟨callee, hcallee, rfl⟩ := List.mem_map.mp hedge
    exact ⟨site, hsite, hcallee, rfl⟩
  · rintro ⟨site, hsite, hcallee, hline⟩
    exact ⟨_, site, hsite, List.mem_map.mpr ⟨edge.callee, hcallee, by rw [← hline]⟩⟩

theorem edgesBy_perm {p : Program} {targets targets' : CallSite → List FuncId}
    (h : ∀ caller, ∀ site ∈ (p.factsOf caller).sites, (targets site).Perm (targets' site)) :
    (p.edgesBy targets).Perm (p.edgesBy targets') := by
  refine List.Perm.flatMap_left _ fun (facts, caller) he => ?_
  refine List.Perm.flatMap_left _ fun site hsite => List.Perm.map _ (h caller site ?_)
  rwa [factsOf, List.mem_zipIdx_iff_getElem?.mp he, Option.getD_some]

theorem edgesBy_append_perm (p : Program) (targets targets' : CallSite → List FuncId) :
    (p.edgesBy fun site => targets site ++ targets' site).Perm
      (p.edgesBy targets ++ p.edgesBy targets') := by
  refine List.Perm.trans ?_ (List.flatMap_append_perm p.facts.zipIdx _ _).symm
  refine List.Perm.flatMap_left _ fun (facts, caller) _ => ?_
  have hsite : siteEdges (fun site => targets site ++ targets' site) caller = fun site =>
      siteEdges targets caller site ++ siteEdges targets' caller site :=
    funext fun site => List.map_append
  simp only [hsite]
  exact (List.flatMap_append_perm _ _ _).symm

end Program

end CallAtlas
