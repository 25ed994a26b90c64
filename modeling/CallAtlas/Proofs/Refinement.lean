import CallAtlas.Proofs.Resolve.Recorded
import CallAtlas.Proofs.ValueFlow.Targets
import CallAtlas.Proofs.WellFormed

/-!
# The flow of values against the declarations

Following values should only drop calls that the declarations allow, and at a call by name or
through an interface it does. At the call of a function value it need not: the declarations allow
the functions that accept the arguments, and the flow takes all that arrive. As variables of one
name in one function share a slot, a function can arrive at a call that has no place for it.

`Misfit` is that function. It is the only thing that goes wrong (`misfit_iff`): whatever else the
flow finds at a site is allowed there, because a function that arrives anywhere has had its address
taken (`Facts.Recorded`) and a type that arrives has its methods among the implementations.
-/

set_option autoImplicit false

namespace CallAtlas.Program

variable {p : Program}

/-! ## Atoms that arrive are recorded somewhere -/

theorem factsOf_recorded (hp : ∀ facts ∈ p.facts, facts.Recorded) (func : FuncId) :
    (p.factsOf func).Recorded :=
  factsOf_of_forall hp (Facts.recorded_of_origins_eq_nil rfl) func

theorem mem_origins_of_site {func : FuncId} {site : CallSite} {origin : Origin}
    (hsite : site ∈ (p.factsOf func).sites) (h : origin ∈ site.origins) :
    origin ∈ (p.factsOf func).origins :=
  List.mem_append_right _ (List.mem_flatMap.mpr ⟨site, hsite, h⟩)

/-- A flow with atoms begins in an origin that some function mentions. -/
theorem HasFlow.exists_mem_origins {source : Origin} {slot : Slot}
    (h : p.HasFlow source slot) {a : Atom} (ha : a ∈ source.atoms) :
    ∃ func, source ∈ (p.factsOf func).origins := by
  have hcalled : ∀ {caller index site callee f}, p.MayCall caller index site callee f →
      source ∈ site.origins → ∃ func, source ∈ (p.factsOf func).origins := by
    intro caller index site callee f call hsource
    exact ⟨caller, mem_origins_of_site (List.mem_of_getElem? call.made) hsource⟩
  cases h with
  | @recorded func flow h => exact ⟨func, List.mem_append_left _ (List.mem_map_of_mem h)⟩
  | argument call harg hparam =>
    exact hcalled call (by simp [CallSite.origins, List.mem_of_getElem? harg])
  | receiver call hrecv hself => exact hcalled call (by simp [CallSite.origins, hrecv])
  | result call hresult => exact absurd ha (by simp [Origin.slot])

/-- An atom that reaches an origin of a function is listed in an origin of that function or
of another one. -/
theorem ReachesOrigin.exists_listed {a : Atom} {origin : Origin} {func : FuncId}
    (horigin : origin ∈ (p.factsOf func).origins) (h : p.ReachesOrigin a origin) :
    ∃ func, ∃ source ∈ (p.factsOf func).origins, a ∈ source.atoms := by
  rcases h with ha | ⟨slot, _, source, entry, hflow, ha, _⟩
  · exact ⟨func, origin, horigin, ha⟩
  · obtain ⟨func', hsource⟩ := hflow.exists_mem_origins ha
    exact ⟨func', source, hsource, ha⟩

theorem ReachesOrigin.exists_knows (hp : ∀ facts ∈ p.facts, facts.Recorded) {a : Atom}
    {origin : Origin} {func : FuncId} (horigin : origin ∈ (p.factsOf func).origins)
    (h : p.ReachesOrigin a origin) : ∃ func, (p.factsOf func).Knows a := by
  obtain ⟨func', source, hsource, ha⟩ := h.exists_listed horigin
  exact ⟨func', factsOf_recorded hp func' source hsource a ha⟩

/-! ## What the declarations allow -/

theorem mem_addressTaken {f : FuncId} : f ∈ p.addressTaken ↔
    f < p.functions.length ∧ ∃ func, f ∈ (p.factsOf func).addressTaken := by
  simp only [addressTaken, List.mem_filter, List.mem_range, List.any_eq_true,
    List.contains_iff_mem, List.mem_iff_getElem? (l := p.facts), ← exists_and_right]
  rw [exists_factsOf_iff (by simp)]

theorem mem_dynamicTargets {count : Nat} {f : FuncId} : f ∈ p.dynamicTargets count ↔
    (∃ func, f ∈ (p.factsOf func).addressTaken) ∧ p.acceptsArgs count f = true := by
  rw [dynamicTargets, List.mem_filter, mem_addressTaken]
  constructor
  · rintro ⟨⟨_, htaken⟩, haccepts⟩
    exact ⟨htaken, haccepts⟩
  · rintro ⟨htaken, haccepts⟩
    exact ⟨⟨acceptsArgs_lt haccepts, htaken⟩, haccepts⟩

/-- A method that a call reaches on one type is among the implementations. -/
theorem mem_invokeTargets {iface ty : TypeId} {method : String} {f : FuncId}
    (himpl : p.decls.implements ty iface = true) (hmethod : p.decls.methodOf ty method = some f) :
    f ∈ p.invokeTargets iface method := by
  rw [invokeTargets, Universe.implementations, List.mem_eraseDups, List.mem_filterMap]
  exact ⟨ty, List.mem_range.mpr (Universe.lt_of_methodOf hmethod), by rw [if_pos himpl, hmethod]⟩

theorem nodup_hierarchyTargets (p : Program) (site : CallSite) :
    (p.hierarchyTargets site).Nodup := by
  unfold hierarchyTargets
  split
  · exact List.pairwise_singleton _ _
  · exact nodup_eraseDups _
  · exact (List.nodup_range.filter _).filter _

theorem Resolves.nodup {site : CallSite} {targets : List FuncId} (h : p.Resolves site targets) :
    targets.Nodup := by
  cases h with
  | static h => exact List.pairwise_singleton _ _
  | anyMethod h hunknown => exact nodup_eraseDups _
  | methods h hunknown hsorted hmem => exact hsorted.imp fun h => Nat.ne_of_lt h
  | anyFunction h hunknown => exact (List.nodup_range.filter _).filter _
  | functions h hunknown hsorted hmem => exact hsorted.imp fun h => Nat.ne_of_lt h

/-! ## Misfits -/

/-- A function reaches the call of a function value and does not accept the arguments, and no value
of unknown origin reaches the call. -/
def Misfit (p : Program) (site : CallSite) (f : FuncId) : Prop :=
  ∃ callee, site.target = .dynamic callee ∧ ¬ p.ReachesOrigin .opaqueValue callee ∧
    p.ReachesOrigin (.func f) callee ∧ p.acceptsArgs site.args.length f = false

/-- The misfits of a site, as they are found. -/
def misfits (p : Program) (site : CallSite) : List FuncId :=
  match site.target with
  | .dynamic _ =>
    (p.flowTargets p.flowGraph.solve site).filter fun f => !p.acceptsArgs site.args.length f
  | _ => []

/-- What the declarations allow at a site and the flow does not find. -/
def dropped (p : Program) (site : CallSite) : List FuncId :=
  (p.hierarchyTargets site).filter fun f => !(p.flowTargets p.flowGraph.solve site).contains f

/-- A site of the program has a misfit where it finds a function that the declarations do not
allow. -/
theorem misfit_iff (hp : ∀ facts ∈ p.facts, facts.Recorded) {caller : FuncId} {site : CallSite}
    (hsite : site ∈ (p.factsOf caller).sites) {targets : List FuncId}
    (h : p.Resolves site targets) {f : FuncId} :
    p.Misfit site f ↔ f ∈ targets ∧ f ∉ p.hierarchyTargets site := by
  -- everywhere but at the last case both sides are false
  have hallowed : (∀ callee, site.target = .dynamic callee → p.ReachesOrigin .opaqueValue callee) →
      (f ∈ targets → f ∈ p.hierarchyTargets site) →
      (p.Misfit site f ↔ f ∈ targets ∧ f ∉ p.hierarchyTargets site) := by
    intro hdynamic hsub
    refine ⟨?_, fun ⟨hf, hnot⟩ => absurd (hsub hf) hnot⟩
    rintro ⟨callee, ht, hunknown, _⟩
    exact absurd (hdynamic callee ht) hunknown
  cases h with
  | static h => exact hallowed (by simp [h]) (by simp [hierarchyTargets, h])
  | anyMethod h hunknown => exact hallowed (by simp [h]) (by simp [hierarchyTargets, h])
  | methods h hunknown hsorted hmem =>
    refine hallowed (by simp [h]) fun hf => ?_
    obtain ⟨ty, _, himpl, hmethod⟩ := (hmem f).mp hf
    rw [hierarchyTargets, h]
    exact mem_invokeTargets himpl hmethod
  | @anyFunction callee h hunknown =>
    refine hallowed (fun callee' h' => ?_) (by simp [hierarchyTargets, h])
    rw [h, CallTarget.dynamic.injEq] at h'
    exact h' ▸ hunknown
  | @functions callee h hunknown targets hsorted hmem =>
    simp only [hierarchyTargets, h, mem_dynamicTargets, hmem, Misfit, CallTarget.dynamic.injEq,
      exists_eq_left']
    have horigin : callee ∈ (p.factsOf caller).origins :=
      mem_origins_of_site hsite (by simp [CallSite.origins, h])
    constructor
    · rintro ⟨_, hreach, hrejects⟩
      exact ⟨hreach, fun haccepts => by simp [hrejects] at haccepts⟩
    -- what arrives has had its address taken, so only its arity can keep it out
    · rintro ⟨hreach, hnot⟩
      refine ⟨hunknown, hreach, ?_⟩
      have htaken := hreach.exists_knows hp horigin
      exact Bool.eq_false_iff.mpr fun haccepts => hnot ⟨htaken, haccepts⟩

theorem mem_misfits {site : CallSite} {f : FuncId} : f ∈ p.misfits site ↔ p.Misfit site f := by
  have hresolves := resolves_flowTargets (p := p) site
  unfold misfits
  split
  · rename_i callee ht
    simp only [Misfit, ht, CallTarget.dynamic.injEq, exists_eq_left', List.mem_filter,
      Bool.not_eq_eq_eq_not, Bool.not_true]
    generalize p.flowTargets p.flowGraph.solve site = targets at hresolves
    cases hresolves with
    | static h => simp [ht] at h
    | anyMethod h _ => simp [ht] at h
    | methods h _ _ _ => simp [ht] at h
    | anyFunction h hunknown =>
      obtain rfl := CallTarget.dynamic.inj (ht.symm.trans h)
      simp +contextual [mem_dynamicTargets, hunknown]
    | functions h hunknown hsorted hmem =>
      obtain rfl := CallTarget.dynamic.inj (ht.symm.trans h)
      simp [hmem, hunknown]
  · rename_i hnot
    refine ⟨fun h => absurd h (by simp), ?_⟩
    rintro ⟨callee, ht, _⟩
    exact absurd ht (hnot callee)

theorem nodup_misfits (p : Program) (site : CallSite) : (p.misfits site).Nodup := by
  unfold misfits
  split
  · exact (resolves_flowTargets site).nodup.filter _
  · exact List.nodup_nil

/-! ## Sites and graphs -/

theorem siteEdges_subperm_iff (hp : ∀ facts ∈ p.facts, facts.Recorded) {caller : FuncId}
    {site : CallSite} (hsite : site ∈ (p.factsOf caller).sites) :
    (siteEdges (p.flowTargets p.flowGraph.solve) caller site).Subperm
        (siteEdges p.hierarchyTargets caller site) ↔ ∀ f, ¬ p.Misfit site f := by
  have hresolves := resolves_flowTargets (p := p) site
  constructor
  · intro hsub f hmisfit
    obtain ⟨hf, hnot⟩ := (misfit_iff hp hsite hresolves).mp hmisfit
    obtain ⟨f', hf', heq⟩ := List.mem_map.mp (hsub.subset (List.mem_map_of_mem hf))
    exact hnot ((CallEdge.mk.inj heq).2.1 ▸ hf')
  · intro hnone
    have hsubset : p.flowTargets p.flowGraph.solve site ⊆ p.hierarchyTargets site := by
      intro f hf
      by_contra hnot
      exact hnone f ((misfit_iff hp hsite hresolves).mpr ⟨hf, hnot⟩)
    exact (List.subperm_of_subset hresolves.nodup hsubset).map fun _ _ h =>
      (CallEdge.mk.inj h).2.1

/-- What the flow finds at a site is in common with the declarations or a misfit. -/
theorem flowTargets_perm (hp : ∀ facts ∈ p.facts, facts.Recorded) {caller : FuncId}
    {site : CallSite} (hsite : site ∈ (p.factsOf caller).sites) :
    (p.flowTargets p.flowGraph.solve site).Perm
      ((p.flowTargets p.flowGraph.solve site).filter (p.hierarchyTargets site).contains ++
        p.misfits site) := by
  have hresolves := resolves_flowTargets (p := p) site
  refine (List.filter_append_perm (p.hierarchyTargets site).contains _).symm.trans
    (List.Perm.append_left _ ?_)
  rw [List.perm_ext_iff_of_nodup (hresolves.nodup.filter _) (nodup_misfits p site)]
  intro f
  rw [mem_misfits, misfit_iff hp hsite hresolves]
  simp

theorem hierarchyTargets_perm (p : Program) (site : CallSite) :
    (p.hierarchyTargets site).Perm
      ((p.flowTargets p.flowGraph.solve site).filter (p.hierarchyTargets site).contains ++
        p.dropped site) := by
  have hflow := (resolves_flowTargets (p := p) site).nodup
  have hallowed := nodup_hierarchyTargets p site
  refine (List.filter_append_perm (p.flowTargets p.flowGraph.solve site).contains _).symm.trans
    (List.Perm.append_right _ ?_)
  rw [List.perm_ext_iff_of_nodup (hallowed.filter _) (hflow.filter _)]
  intro f
  simp [and_comm]

/-! ## Two function values under one name -/

/-- A program with two blocks. Each declares its own `f` and calls it. -/
def twoBlocks : Disk where
  top := "/w"
  tree := .dir [("main.go", .file (some (
    "package main\n\nfunc main() \x7b\n" ++
    "\t\x7b\n\t\tf := func(a int) \x7b\x7d\n\t\tf(1)\n\t\x7d\n" ++
    "\t\x7b\n\t\tf := func(a, b int) \x7b\x7d\n\t\tf(1, 2)\n\t\x7d\n\x7d\n")))]

def twoBlocksModule : Module := { path := "example.com/m", root := [] }

def twoBlocksProgram : Program :=
  ((twoBlocks.loadProgram .host twoBlocksModule "/w").toOption).getD {}

/-- The call in the second block. -/
def secondCall : CallSite :=
  { line := 10, target := .dynamic (.slot (.localVar 0 "f")), args := [{}, {}] }

-- One evaluation for all that is needed of the program, because loading it is what takes the time.
theorem twoBlocks_evaluated :
    (twoBlocks.loadProgram .host twoBlocksModule "/w").isOk = true ∧
      secondCall ∈ (twoBlocksProgram.factsOf 0).sites ∧
      .func 1 ∈ twoBlocksProgram.flowGraph.solve.valuesOf (.slot (.localVar 0 "f")) ∧
      .opaqueValue ∉ twoBlocksProgram.flowGraph.solve.valuesOf (.slot (.localVar 0 "f")) ∧
      twoBlocksProgram.acceptsArgs 2 1 = false ∧
      { caller := 0, callee := 1, line := 10 } ∉ twoBlocksProgram.hierarchyGraph.edges := by
  decide +kernel

theorem twoBlocks_loads : twoBlocks.loadProgram .host twoBlocksModule "/w" = .ok twoBlocksProgram :=
  Disk.loadProgram_of_isOk twoBlocks_evaluated.1

/-- The function of the first block reaches the call in the second one. -/
theorem misfit_secondCall : twoBlocksProgram.Misfit secondCall 1 := by
  obtain ⟨_, _, hreaches, hunknown, hrejects, _⟩ := twoBlocks_evaluated
  exact ⟨_, rfl, fun h => hunknown (mem_valuesOf_solution.mpr h), mem_valuesOf_solution.mp hreaches,
    hrejects⟩

/-- **Main statement**: in a program that loads, a site calls by the flow of values what the
declarations allow, and no more often, exactly if it has no misfit. The whole graph is a part of the
one by the declarations exactly if for every edge to a misfit there is one with the same ends and
line that the declarations allow and the flow does not find. -/
theorem valueFlowGraph_subperm_hierarchyGraph_iff {d : Disk} {platform : Build.Platform}
    {module : Module} {start : String} {p : Program}
    (h : d.loadProgram platform module start = .ok p) :
    (∀ caller, ∀ site ∈ (p.factsOf caller).sites,
      ((siteEdges (p.flowTargets p.flowGraph.solve) caller site).Subperm
          (siteEdges p.hierarchyTargets caller site) ↔ ∀ f, ¬ p.Misfit site f)) ∧
      (∀ site callee, site.target = .dynamic callee → ∀ f ∈ p.flowTargets p.flowGraph.solve site,
        (p.acceptsArgs site.args.length f = false ↔ p.Misfit site f)) ∧
      (p.valueFlowGraph.edges.Subperm p.hierarchyGraph.edges ↔
        (p.edgesBy p.misfits).Subperm (p.edgesBy p.dropped)) := by
  have hp := Disk.loadProgram_recorded h
  -- both graphs share the common edges, which cancel
  have hflow := (edgesBy_perm fun _ _ hsite => flowTargets_perm hp hsite).trans
    (edgesBy_append_perm p _ _)
  have hallowed := (edgesBy_perm fun _ site _ => hierarchyTargets_perm p site).trans
    (edgesBy_append_perm p _ _)
  refine ⟨fun caller site hsite => siteEdges_subperm_iff hp hsite,
    fun site callee ht f hf => ?_, ?_⟩
  · rw [← mem_misfits, misfits, ht]
    simp [hf]
  rw [valueFlowGraph, hierarchyGraph, graphBy_edges, graphBy_edges, hflow.subperm_right,
    hallowed.subperm_left, List.subperm_append_left]

theorem valueFlowGraph_subperm_hierarchyGraph_iff_twoBlocks :
    twoBlocks.loadProgram .host twoBlocksModule "/w" = .ok twoBlocksProgram ∧
      secondCall ∈ (twoBlocksProgram.factsOf 0).sites ∧
      ¬ (siteEdges (twoBlocksProgram.flowTargets twoBlocksProgram.flowGraph.solve) 0
          secondCall).Subperm (siteEdges twoBlocksProgram.hierarchyTargets 0 secondCall) := by
  have hsite := twoBlocks_evaluated.2.1
  refine ⟨twoBlocks_loads, hsite, fun hsub => ?_⟩
  have hnone := ((valueFlowGraph_subperm_hierarchyGraph_iff twoBlocks_loads).1 0 _ hsite).mp hsub
  exact hnone 1 misfit_secondCall

/-- The second call is linked to the function of the first block, which takes one argument less. -/
theorem twoBlocks_not_subperm : ∃ p, twoBlocks.loadProgram .host twoBlocksModule "/w" = .ok p ∧
    ¬ p.valueFlowGraph.edges.Subperm p.hierarchyGraph.edges := by
  refine ⟨twoBlocksProgram, twoBlocks_loads, fun hsub => ?_⟩
  obtain ⟨_, hsite, _, _, _, hnot⟩ := twoBlocks_evaluated
  refine hnot (hsub.subset ?_)
  rw [valueFlowGraph, graphBy_edges, mem_edgesBy]
  have hfound := mem_misfits.mpr misfit_secondCall
  exact ⟨secondCall, hsite, (List.mem_filter.mp hfound).1, rfl⟩

end CallAtlas.Program
