import CallAtlas.Proofs.Rapid.Reach
import CallAtlas.Proofs.Refinement
import Mathlib.Data.List.Flatten
import Mathlib.Data.List.Perm.Subperm

/-!
# How exact the analyses are

The static graph has the calls by name, the hierarchy graph all calls that the declarations allow,
and the rapid graph those of the code that is reached. They are found in three ways: site by site,
site by site with the whole program in view, and in the order in which code is reached. What ties
them together is that each is a list of callers with the targets of their sites (`edgesFrom`), so
the graphs are compared caller by caller and site by site, where the targets are lists without
repetitions and it is enough to compare them as sets.
-/

set_option autoImplicit false

namespace CallAtlas

/-! ## Parts of concatenations -/

section Lists

variable {α β : Type}

theorem flatMap_subperm_flatMap {xs : List α} {f g : α → List β}
    (h : ∀ x ∈ xs, (f x).Subperm (g x)) : (xs.flatMap f).Subperm (xs.flatMap g) := by
  induction xs with
  | nil => exact List.Subperm.refl []
  | cons x xs ih =>
    rw [List.flatMap_cons, List.flatMap_cons]
    exact (h x List.mem_cons_self).append (ih fun y hy => h y (List.mem_cons_of_mem x hy))

theorem flatMap_subperm_of_subperm {xs ys : List α} (h : xs.Subperm ys) (f : α → List β) :
    (xs.flatMap f).Subperm (ys.flatMap f) := by
  obtain ⟨zs, hperm, hsub⟩ := h
  exact ⟨zs.flatMap f, hperm.flatMap_right f, hsub.flatMap f⟩

/-- A condition that only depends on the part can be asked of the parts. -/
theorem filter_flatMap_eq {xs : List α} {f : α → List β} {q : β → Bool} {r : α → Bool}
    (h : ∀ x ∈ xs, ∀ y ∈ f x, q y = r x) : (xs.flatMap f).filter q = (xs.filter r).flatMap f := by
  induction xs with
  | nil => rfl
  | cons x xs ih =>
    have ih := ih fun y hy => h y (List.mem_cons_of_mem x hy)
    have hx := h x List.mem_cons_self
    rw [List.flatMap_cons, List.filter_append, ih]
    cases hr : r x with
    | true =>
      have hall : (f x).filter q = f x := List.filter_eq_self.mpr fun y hy => (hx y hy).trans hr
      rw [hall, List.filter_cons_of_pos hr, List.flatMap_cons]
    | false =>
      have hnone : (f x).filter q = [] :=
        List.filter_eq_nil_iff.mpr fun y hy => by rw [hx y hy, hr]; exact Bool.false_ne_true
      rw [hnone, List.filter_cons_of_neg (by rw [hr]; exact Bool.false_ne_true), List.nil_append]

end Lists

namespace Program

variable {p : Program}

/-! ## Callers and their sites -/

/-- The edges of the sites of some functions. -/
def edgesFrom (p : Program) (targets : CallSite → List FuncId) (callers : List FuncId) :
    List CallEdge :=
  callers.flatMap fun f => (p.factsOf f).sites.flatMap (siteEdges targets f)

theorem edgesBy_eq_edgesFrom (p : Program) (targets : CallSite → List FuncId) :
    p.edgesBy targets = p.edgesFrom targets (List.range p.facts.length) := by
  have hzip : p.facts.zipIdx = (List.range p.facts.length).map fun f => (p.factsOf f, f) := by
    apply List.ext_getElem
    · simp
    · intro i hi _
      simp only [List.length_zipIdx] at hi
      simp [factsOf, List.getElem?_eq_getElem hi]
  rw [edgesBy, edgesFrom, hzip, List.flatMap_map]

theorem edgesFrom_subperm {targets targets' : CallSite → List FuncId} {callers : List FuncId}
    (h : ∀ f ∈ callers, ∀ site ∈ (p.factsOf f).sites, (targets site).Subperm (targets' site)) :
    (p.edgesFrom targets callers).Subperm (p.edgesFrom targets' callers) := by
  refine flatMap_subperm_flatMap fun f hf => flatMap_subperm_flatMap fun site hsite => ?_
  obtain ⟨zs, hperm, hsub⟩ := h f hf site hsite
  exact ⟨_, hperm.map _, hsub.map _⟩

theorem filter_caller_edgesFrom (targets : CallSite → List FuncId) (callers : List FuncId)
    (q : FuncId → Bool) : (p.edgesFrom targets callers).filter (fun e => q e.caller) =
      p.edgesFrom targets (callers.filter q) := by
  refine filter_flatMap_eq fun f _ e he => ?_
  obtain ⟨site, _, he⟩ := List.mem_flatMap.mp he
  obtain ⟨callee, _, rfl⟩ := List.mem_map.mp he
  rfl

/-- Distinct callers have some of the edges of the whole program. -/
theorem edgesFrom_subperm_edgesBy (targets : CallSite → List FuncId) {callers : List FuncId}
    (hnodup : callers.Nodup) : (p.edgesFrom targets callers).Subperm (p.edgesBy targets) := by
  -- a number without facts has no edges, so it does not matter that it is not in the program
  have hknown : ∀ e ∈ p.edgesFrom targets callers, decide (e.caller < p.facts.length) = true := by
    intro e he
    obtain ⟨f, _, he⟩ := List.mem_flatMap.mp he
    obtain ⟨site, hsite, he⟩ := List.mem_flatMap.mp he
    obtain ⟨callee, _, rfl⟩ := List.mem_map.mp he
    rw [decide_eq_true_eq]
    by_contra hf
    rw [factsOf, List.getElem?_eq_none (Nat.not_lt.mp hf)] at hsite
    exact absurd hsite (by simp)
  rw [← List.filter_eq_self.mpr hknown, edgesBy_eq_edgesFrom,
    filter_caller_edgesFrom targets callers fun f => decide (f < p.facts.length)]
  refine flatMap_subperm_of_subperm (List.subperm_of_subset (hnodup.filter _) fun f hf => ?_) _
  simpa using (List.mem_filter.mp hf).2

/-! ## The targets of a site -/

/-- A call by name is in every list of targets that has its callee. -/
theorem namedTargets_subperm {site : CallSite} {targets : List FuncId}
    (h : ∀ callee, site.target = .static callee → callee ∈ targets) :
    (namedTargets site).Subperm targets := by
  unfold namedTargets
  cases ht : site.target with
  | static callee => exact List.singleton_subperm_iff.mpr (h callee ht)
  | invoke iface method => exact List.nil_subperm
  | dynamic origin => exact List.nil_subperm

theorem nodup_targetsAmong (p : Program) (types : List TypeId) (addresses : List FuncId)
    (site : CallSite) : (p.targetsAmong types addresses site).Nodup := by
  unfold targetsAmong
  cases site.target with
  | static callee => exact List.pairwise_singleton _ _
  | invoke iface method => exact nodup_eraseDups _
  | dynamic origin => exact nodup_eraseDups _

/-- Some types and some of the addresses that the program takes reach what the
declarations allow. -/
theorem targetsAmong_subperm_hierarchyTargets {types : List TypeId} {addresses : List FuncId}
    (haddr : ∀ f ∈ addresses, ∃ func, f ∈ (p.factsOf func).addressTaken) (site : CallSite) :
    (p.targetsAmong types addresses site).Subperm (p.hierarchyTargets site) := by
  refine List.subperm_of_subset (nodup_targetsAmong p types addresses site) fun f hf => ?_
  rcases Rapid.mem_targetsAmong.mp hf with h | ⟨iface, method, h,
    ty, _, himpl, hm⟩ | ⟨o, h, ha, hacc⟩
  · simp [hierarchyTargets, h]
  · rw [hierarchyTargets, h]
    exact mem_invokeTargets himpl hm
  · rw [hierarchyTargets, h]
    exact mem_dynamicTargets.mpr ⟨haddr f ha, hacc⟩

/-! ## The graphs -/

theorem staticGraph_edges_subperm (p : Program) :
    p.staticGraph.edges.Subperm p.hierarchyGraph.edges := by
  rw [staticGraph, hierarchyGraph, graphBy_edges, graphBy_edges, edgesBy_eq_edgesFrom,
    edgesBy_eq_edgesFrom]
  exact edgesFrom_subperm fun f _ site _ => namedTargets_subperm fun callee h => by
    simp [hierarchyTargets, h]

/-- The targets that the sites of reached code have, if these functions are reached. -/
def reachedTargets (p : Program) (reached : List FuncId) : CallSite → List FuncId :=
  p.targetsAmong (reached.flatMap fun f => (p.factsOf f).allocations)
    (reached.flatMap fun f => (p.factsOf f).addressTaken)

theorem exists_rapidGraph (hp : p.CalleesExist) (hmain : p.mainFunctions ≠ []) :
    ∃ g, p.rapidGraph? = some g ∧ g.nodes.Nodup ∧
      g.edges.Perm (p.edgesFrom (p.reachedTargets g.nodes) g.nodes) := by
  obtain ⟨visited, h, hq⟩ := Rapid.exists_explores_run hp p.mainFunctions fun _ hf => hf
  obtain ⟨_, hr, _, _⟩ := h.remembers
  exact ⟨_, rapidGraph?_eq hmain, hr.nodup,
    h.edges_perm.trans (Rapid.linksFrom_perm (h.nodes_perm hq).symm)⟩

theorem static_subperm_edgesFrom (p : Program) (reached : List FuncId) :
    (p.staticGraph.edges.filter fun e => reached.contains e.caller).Subperm
      (p.edgesFrom (p.reachedTargets reached) reached) := by
  rw [staticGraph, graphBy_edges, edgesBy_eq_edgesFrom, filter_caller_edgesFrom]
  have hcallers : ((List.range p.facts.length).filter reached.contains).Subperm reached := by
    refine List.subperm_of_subset (List.nodup_range.filter _) fun f hf => ?_
    simpa using (List.mem_filter.mp hf).2
  refine (flatMap_subperm_of_subperm hcallers _).trans (edgesFrom_subperm fun f _ site _ => ?_)
  exact namedTargets_subperm fun callee h => Rapid.mem_targetsAmong.mpr (Or.inl h)

theorem edgesFrom_subperm_hierarchyGraph {reached : List FuncId} (hnodup : reached.Nodup) :
    (p.edgesFrom (p.reachedTargets reached) reached).Subperm p.hierarchyGraph.edges := by
  have haddr : ∀ f ∈ reached.flatMap fun f => (p.factsOf f).addressTaken,
      ∃ func, f ∈ (p.factsOf func).addressTaken := by
    intro f hf
    obtain ⟨func, _, hf⟩ := List.mem_flatMap.mp hf
    exact ⟨func, hf⟩
  rw [hierarchyGraph, graphBy_edges]
  exact (edgesFrom_subperm fun f _ site _ => targetsAmong_subperm_hierarchyTargets haddr site).trans
    (edgesFrom_subperm_edgesBy p.hierarchyTargets hnodup)

/-- **The rapid graph lies between the static and the hierarchy graph**: it has the calls by name of
the code that is reached, and no call, nor any call more often, than the declarations allow. The
calls by name are allowed in every program. -/
theorem rapidGraph_between_staticGraph_hierarchyGraph (p : Program) :
    p.staticGraph.edges.Subperm p.hierarchyGraph.edges ∧
      (p.CalleesExist → p.mainFunctions ≠ [] → ∃ g, p.rapidGraph? = some g ∧
        (p.staticGraph.edges.filter fun e => g.contains e.caller).Subperm g.edges ∧
        g.edges.Subperm p.hierarchyGraph.edges) := by
  refine ⟨staticGraph_edges_subperm p, fun hp hmain => ?_⟩
  obtain ⟨g, hg, hnodup, hedges⟩ := exists_rapidGraph hp hmain
  exact ⟨g, hg, hedges.subperm_left.mpr (static_subperm_edgesFrom p g.nodes),
    hedges.subperm_right.mpr (edgesFrom_subperm_hierarchyGraph hnodup)⟩

theorem rapidGraph_between_staticGraph_hierarchyGraph_sample :
    Rapid.sample.CalleesExist ∧ Rapid.sample.mainFunctions ≠ [] ∧
      Rapid.sample.rapidGraph? = some Rapid.sampleGraph ∧
      [⟨0, 1, 4⟩].Subperm Rapid.sampleGraph.edges ∧
      Rapid.sampleGraph.edges.Subperm Rapid.sample.hierarchyGraph.edges := by
  obtain ⟨g, hg, hstatic, hrapid⟩ :=
    (rapidGraph_between_staticGraph_hierarchyGraph Rapid.sample).2 (by decide) (by decide)
  rw [Rapid.rapidGraph?_sample, Option.some.injEq] at hg
  subst hg
  exact ⟨by decide, by decide, Rapid.rapidGraph?_sample, hstatic, hrapid⟩

end Program

end CallAtlas
