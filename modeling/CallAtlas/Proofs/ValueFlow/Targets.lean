import CallAtlas.Proofs.Graph
import CallAtlas.Proofs.ValueFlow.Solve

/-!
# What a call reaches by the flow of values

`HasFlow` says which values flow where in a program, with no graph and no order: the recorded flows,
and for every call that the declarations allow the flows of its arguments, its receiver and its
results. An atom reaches a slot if it is listed in a flow into a slot from which flows lead there.

The graph that is solved has no arc from a slot to itself, and a slot becomes a node of it only when
a flow mentions it. Neither shows: the atoms of the solution are exactly those that reach a slot
(`mem_atoms_solution`), so `Resolves` can say what every site calls without a word about the solver.
-/

set_option autoImplicit false

namespace CallAtlas.Program

variable {p : Program}

/-! ## Flows without a graph -/

/-- Site number `index` of `caller` can call `f` as far as the declarations tell. -/
structure MayCall (p : Program) (caller : FuncId) (index : Nat) (site : CallSite) (callee : FuncId)
    (f : Function) : Prop where
  made : (p.factsOf caller).sites[index]? = some site
  allowed : callee ∈ p.hierarchyTargets site
  known : p.functions[callee]? = some f

/-- The values of an origin flow into a slot. -/
inductive HasFlow (p : Program) : Origin → Slot → Prop
  | recorded {func : FuncId} {flow : Flow} (h : flow ∈ (p.factsOf func).flows) :
      HasFlow p flow.source flow.sink
  | argument {caller : FuncId} {index : Nat} {site : CallSite} {callee : FuncId} {f : Function}
      (call : p.MayCall caller index site callee f) {i : Nat} {arg : Origin}
      (harg : site.args[i]? = some arg) (hparam : i < f.signature.params.length) :
      HasFlow p arg (.localVar callee (f.paramKey i))
  | receiver {caller : FuncId} {index : Nat} {site : CallSite} {callee : FuncId} {f : Function}
      (call : p.MayCall caller index site callee f) {recv : Origin}
      (hrecv : site.recv = some recv) (hself : f.receiver.isSome) :
      HasFlow p recv (.localVar callee f.receiverKey)
  | result {caller : FuncId} {index : Nat} {site : CallSite} {callee : FuncId} {f : Function}
      (call : p.MayCall caller index site callee f) {i : Nat}
      (hresult : i < f.signature.results.length) :
      HasFlow p (.slot (.result callee i)) (.callResult caller index i)

/-- Values flow from one slot into another. -/
def Feeds (p : Program) (x y : Slot) : Prop := ∃ source, p.HasFlow source y ∧ x ∈ source.slots

/-- The atom is listed in a flow into a slot from which flows lead to this one. -/
def ReachesSlot (p : Program) (a : Atom) (slot : Slot) : Prop :=
  ∃ source entry, p.HasFlow source entry ∧ a ∈ source.atoms ∧
    Relation.ReflTransGen p.Feeds entry slot

/-- The atom is listed in the origin or reaches one of its slots. -/
def ReachesOrigin (p : Program) (a : Atom) (origin : Origin) : Prop :=
  a ∈ origin.atoms ∨ ∃ slot ∈ origin.slots, p.ReachesSlot a slot

/-- What a site calls by the values that reach it. A value of unknown origin makes it call all that
the declarations allow; otherwise the functions are listed in increasing order, each once. -/
inductive Resolves (p : Program) (site : CallSite) : List FuncId → Prop
  | static {callee : FuncId} (h : site.target = .static callee) : Resolves p site [callee]
  | anyMethod {iface : TypeId} {method : String} (h : site.target = .invoke iface method)
      (hunknown : ∃ recv ∈ site.recv, p.ReachesOrigin .opaqueValue recv) :
      Resolves p site (p.invokeTargets iface method)
  | methods {iface : TypeId} {method : String} (h : site.target = .invoke iface method)
      (hunknown : ¬ ∃ recv ∈ site.recv, p.ReachesOrigin .opaqueValue recv) {targets : List FuncId}
      (hsorted : targets.Pairwise (· < ·))
      (hmem : ∀ f, f ∈ targets ↔ ∃ ty, (∃ recv ∈ site.recv, p.ReachesOrigin (.type ty) recv) ∧
        p.decls.implements ty iface = true ∧ p.decls.methodOf ty method = some f) :
      Resolves p site targets
  | anyFunction {callee : Origin} (h : site.target = .dynamic callee)
      (hunknown : p.ReachesOrigin .opaqueValue callee) :
      Resolves p site (p.dynamicTargets site.args.length)
  | functions {callee : Origin} (h : site.target = .dynamic callee)
      (hunknown : ¬ p.ReachesOrigin .opaqueValue callee) {targets : List FuncId}
      (hsorted : targets.Pairwise (· < ·))
      (hmem : ∀ f, f ∈ targets ↔ p.ReachesOrigin (.func f) callee) :
      Resolves p site targets

/-! ## The flows that are collected -/

theorem mem_callFlows {caller : FuncId} {index : Nat} {site : CallSite} {callee : FuncId}
    {flow : Flow} :
    flow ∈ p.callFlows caller index site callee ↔ ∃ f, p.functions[callee]? = some f ∧
      ((∃ i arg, site.args[i]? = some arg ∧ i < f.signature.params.length ∧
          flow = ⟨arg, .localVar callee (f.paramKey i)⟩) ∨
        (∃ recv, site.recv = some recv ∧ f.receiver.isSome ∧
          flow = ⟨recv, .localVar callee f.receiverKey⟩) ∨
        ∃ i, i < f.signature.results.length ∧
          flow = ⟨.slot (.result callee i), .callResult caller index i⟩) := by
  unfold callFlows
  cases hf : p.functions[callee]? with
  | none => simp
  | some f =>
    simp only [List.mem_append, or_assoc, Option.some.injEq, exists_eq_left']
    refine or_congr ?_ (or_congr ?_ ?_)
    · simp only [List.mem_map, Prod.exists, List.mem_zipIdx_iff_getElem?, List.getElem?_take]
      grind
    · cases site.recv <;> cases f.receiver <;> simp
    · simp only [List.mem_map, List.mem_range, eq_comm]

theorem mem_flowsOf {func : FuncId} {facts : Facts} {flow : Flow} :
    flow ∈ p.flowsOf func facts ↔ flow ∈ facts.flows ∨
      ∃ index site callee, facts.sites[index]? = some site ∧ callee ∈ p.hierarchyTargets site ∧
        flow ∈ p.callFlows func index site callee := by
  simp only [flowsOf, List.mem_append, List.mem_flatMap, Prod.exists, List.mem_zipIdx_iff_getElem?]
  refine or_congr_right ⟨?_, ?_⟩
  · rintro ⟨site, index, hsite, callee, hcallee, h⟩
    exact ⟨index, site, callee, hsite, hcallee, h⟩
  · rintro ⟨index, site, callee, hsite, hcallee, h⟩
    exact ⟨site, index, hsite, callee, hcallee, h⟩

/-- The collected flows are those of the program. -/
theorem mem_collected {flow : Flow} :
    flow ∈ p.facts.zipIdx.flatMap (fun (facts, func) => p.flowsOf func facts) ↔
      p.HasFlow flow.source flow.sink := by
  simp only [List.mem_flatMap, Prod.exists, List.mem_zipIdx_iff_getElem?]
  rw [exists_factsOf_iff (by simp [flowsOf])]
  constructor
  · rintro ⟨func, h⟩
    rcases mem_flowsOf.mp h with h | ⟨index, site, callee, hsite, hcallee, h⟩
    · exact .recorded h
    · obtain ⟨f, hf, h⟩ := mem_callFlows.mp h
      have hcall : p.MayCall func index site callee f := ⟨hsite, hcallee, hf⟩
      rcases h with ⟨i, arg, harg, hi, rfl⟩ | ⟨recv, hrecv, hself, rfl⟩ | ⟨i, hi, rfl⟩
      · exact .argument hcall harg hi
      · exact .receiver hcall hrecv hself
      · exact .result hcall hi
  · obtain ⟨source, sink⟩ := flow
    have hcalled : ∀ {caller index site callee f}, p.MayCall caller index site callee f →
        ⟨source, sink⟩ ∈ p.callFlows caller index site callee →
        ∃ func, ⟨source, sink⟩ ∈ p.flowsOf func (p.factsOf func) := fun call h =>
      ⟨_, mem_flowsOf.mpr (Or.inr ⟨_, _, _, call.made, call.allowed, h⟩)⟩
    intro h
    cases h with
    | recorded h => exact ⟨_, mem_flowsOf.mpr (Or.inl h)⟩
    | argument call harg hi =>
      exact hcalled call (mem_callFlows.mpr ⟨_, call.known, Or.inl ⟨_, _, harg, hi, rfl⟩⟩)
    | receiver call hrecv hself =>
      exact hcalled call (mem_callFlows.mpr ⟨_, call.known, Or.inr (Or.inl ⟨_, hrecv, hself, rfl⟩)⟩)
    | result call hi =>
      exact hcalled call (mem_callFlows.mpr ⟨_, call.known, Or.inr (Or.inr ⟨_, hi, rfl⟩)⟩)

/-! ## The graph of the flows -/

theorem mem_atoms_flowGraph {slot : Slot} {a : Atom} :
    a ∈ p.flowGraph.atoms slot ↔ ∃ source, p.HasFlow source slot ∧ a ∈ source.atoms := by
  rw [flowGraph, (FlowGraph.foldl_connect_spec _).1]
  constructor
  · rintro ⟨flow, hflow, rfl, ha⟩
    exact ⟨flow.source, mem_collected.mp hflow, ha⟩
  · rintro ⟨source, hflow, ha⟩
    exact ⟨⟨source, slot⟩, mem_collected.mpr hflow, rfl, ha⟩

theorem mem_arcs_flowGraph {x y : Slot} : (x, y) ∈ p.flowGraph.arcs ↔ x ≠ y ∧ p.Feeds x y := by
  rw [flowGraph, (FlowGraph.foldl_connect_spec _).2.1]
  constructor
  · rintro ⟨flow, hflow, source, hsource, hne, heq⟩
    obtain ⟨rfl, rfl⟩ := Prod.mk.inj heq
    exact ⟨hne, flow.source, mem_collected.mp hflow, hsource⟩
  · rintro ⟨hne, source, hflow, hx⟩
    exact ⟨⟨source, y⟩, mem_collected.mpr hflow, x, hx, hne, rfl⟩

theorem leads_flowGraph {x y : Slot} :
    p.flowGraph.Leads x y ↔ Relation.ReflTransGen p.Feeds x y := by
  refine ⟨Relation.ReflTransGen.mono (fun _ _ harc => (mem_arcs_flowGraph.mp harc).2) x y,
    fun h => ?_⟩
  induction h with
  | refl => exact Relation.ReflTransGen.refl
  | @tail b c _ hfeeds ih =>
    -- a flow from a slot into itself has no arc and needs none
    by_cases hbc : b = c
    · exact hbc ▸ ih
    · exact ih.tail (mem_arcs_flowGraph.mpr ⟨hbc, hfeeds⟩)

/-- The solution holds in a slot what reaches the slot in the program. -/
theorem mem_atoms_solution {slot : Slot} {a : Atom} :
    a ∈ p.flowGraph.solve.atoms slot ↔ p.ReachesSlot a slot := by
  -- any list of flows builds a graph that can be solved
  have hproper : p.flowGraph.Proper := (FlowGraph.foldl_connect_spec _).2.2
  rw [FlowGraph.mem_atoms_solve hproper]
  constructor
  · rintro ⟨entry, ha, hleads⟩
    obtain ⟨source, hflow, ha⟩ := mem_atoms_flowGraph.mp ha
    exact ⟨source, entry, hflow, ha, leads_flowGraph.mp hleads⟩
  · rintro ⟨source, entry, hflow, ha, hleads⟩
    exact ⟨entry, mem_atoms_flowGraph.mpr ⟨source, hflow, ha⟩, leads_flowGraph.mpr hleads⟩

theorem mem_valuesOf_solution {origin : Origin} {a : Atom} :
    a ∈ p.flowGraph.solve.valuesOf origin ↔ p.ReachesOrigin a origin := by
  simp only [FlowGraph.mem_valuesOf, mem_atoms_solution, ReachesOrigin]

/-! ## The calls of a site -/

theorem mem_methodsOn {iface : TypeId} {method : String} {atoms : List Atom} {f : FuncId} :
    f ∈ p.methodsOn iface method atoms ↔ ∃ ty, .type ty ∈ atoms ∧
      p.decls.implements ty iface = true ∧ p.decls.methodOf ty method = some f := by
  rw [methodsOn, mem_ascending, List.mem_filterMap]
  constructor
  · rintro ⟨a, ha, h⟩
    cases a with
    | type ty =>
      rw [Option.ite_none_right_eq_some] at h
      exact ⟨ty, ha, h⟩
    | func id => exact absurd h (by simp)
    | opaqueValue => exact absurd h (by simp)
  · rintro ⟨ty, hty, himpl, hmethod⟩
    exact ⟨.type ty, hty, by simp [himpl, hmethod]⟩

theorem mem_functionsIn {atoms : List Atom} {f : FuncId} :
    f ∈ functionsIn atoms ↔ .func f ∈ atoms := by
  rw [functionsIn, mem_ascending, List.mem_filterMap]
  constructor
  · rintro ⟨a, ha, h⟩
    cases a with
    | func id => exact Option.some.inj h ▸ ha
    | type ty => exact absurd h (by simp)
    | opaqueValue => exact absurd h (by simp)
  · exact fun h => ⟨_, h, rfl⟩

/-- The atoms that arrive at the receiver of a site. -/
theorem mem_received {recv : Option Origin} {a : Atom} :
    a ∈ (recv.map p.flowGraph.solve.valuesOf).getD [] ↔ ∃ origin ∈ recv,
      p.ReachesOrigin a origin := by
  cases recv with
  | none => simp
  | some origin => simp [mem_valuesOf_solution]

theorem resolves_flowTargets (site : CallSite) :
    p.Resolves site (p.flowTargets p.flowGraph.solve site) := by
  unfold flowTargets
  cases ht : site.target with
  | static callee => exact .static ht
  | invoke iface method =>
    by_cases hunknown : ∃ recv ∈ site.recv, p.ReachesOrigin .opaqueValue recv
    · simp only [if_pos (List.contains_iff_mem.mpr (mem_received.mpr hunknown))]
      exact .anyMethod ht hunknown
    · simp only [if_neg fun h => hunknown (mem_received.mp (List.contains_iff_mem.mp h))]
      refine .methods ht hunknown (ascending_pairwise _) fun f => ?_
      simp only [mem_methodsOn, mem_received]
  | dynamic callee =>
    by_cases hunknown : p.ReachesOrigin .opaqueValue callee
    · simp only [if_pos (List.contains_iff_mem.mpr (mem_valuesOf_solution.mpr hunknown))]
      exact .anyFunction ht hunknown
    · simp only [if_neg fun h => hunknown (mem_valuesOf_solution.mp (List.contains_iff_mem.mp h))]
      refine .functions ht hunknown (ascending_pairwise _) fun f => ?_
      rw [mem_functionsIn, mem_valuesOf_solution]

/-- **Main statement**: the edges of the graph are, for the functions in the order of their
numbers and for the sites of each in their order, those to what the values that reach the
site resolve it to. -/
theorem valueFlowGraph_edges_eq (p : Program) :
    ∃ targets : CallSite → List FuncId, (∀ site, p.Resolves site (targets site)) ∧
      p.valueFlowGraph.edges = p.facts.zipIdx.flatMap fun (facts, caller) =>
        facts.sites.flatMap fun site =>
          (targets site).map fun callee => { caller, callee, line := site.line } :=
  ⟨p.flowTargets p.flowGraph.solve, resolves_flowTargets, graphBy_edges p _⟩

end CallAtlas.Program
