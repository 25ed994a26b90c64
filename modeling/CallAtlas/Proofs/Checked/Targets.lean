import CallAtlas.Analysis.Rapid
import CallAtlas.Proofs.Passes
import CallAtlas.Proofs.Refinement
import CallAtlas.Proofs.Resolve.Grounded

/-!
# Analyses that check every access

A list answers for every number, and where it holds nothing the analyses go on without it. Here they
stand once more as functions that have no result as soon as they look up a number that a list does
not hold. On a grounded program they have one, and it is the result of the analyses. So the analyses
never ask for a function, for facts or for a type that is not there.
-/

set_option autoImplicit false

namespace CallAtlas

/-! ## What a grounded program calls -/

namespace Program.Grounded

variable {p : Program}

theorem factsOf (hp : p.Grounded) (func : FuncId) : p.FactsGrounded func (p.factsOf func) := by
  unfold Program.factsOf
  cases hfacts : p.facts[func]? with
  | none => exact p.factsGrounded_empty func
  | some facts => exact hp.facts func facts hfacts

theorem lt_of_mem_sites (hp : p.Grounded) {func : FuncId} {site : CallSite}
    (h : site ∈ (p.factsOf func).sites) : func < p.functions.length := by
  rcases Nat.lt_or_ge func p.facts.length with hlt | hge
  · exact hp.length ▸ hlt
  · rw [Program.factsOf, List.getElem?_eq_none hge] at h
    exact absurd h List.not_mem_nil

theorem lt_of_mem_mainFunctions (hp : p.Grounded) {func : FuncId} (h : func ∈ p.mainFunctions) :
    func < p.functions.length := by
  obtain ⟨q, hq, hmain⟩ := List.mem_filterMap.mp h
  refine hp.listed func (.packageFunc (List.mem_filter.mp hq).1 ?_)
  exact List.mem_map.mpr ⟨("main", func), Table.mem_entries_of_get? hmain, rfl⟩

theorem lt_of_methodOf (hp : p.Grounded) {ty : TypeId} {name : String} {func : FuncId}
    (h : p.decls.methodOf ty name = some func) : func < p.functions.length := by
  obtain ⟨t, ht, m, hm, rfl⟩ := Universe.exists_method_of_methodOf h
  exact hp.listed _ (.method ht hm)

theorem lt_of_dispatch (hp : p.Grounded) {iface ty : TypeId} {method : String} {func : FuncId}
    (h : Rapid.dispatch p iface method ty = some func) : func < p.functions.length := by
  unfold Rapid.dispatch at h
  split at h
  · exact hp.lt_of_methodOf h
  · cases h

theorem lt_of_mem_invokeTargets (hp : p.Grounded) {iface : TypeId} {method : String}
    {callee : FuncId} (h : callee ∈ p.invokeTargets iface method) :
    callee < p.functions.length := by
  rw [invokeTargets, Universe.implementations, List.mem_eraseDups, List.mem_filterMap] at h
  obtain ⟨ty, _, h⟩ := h
  exact hp.lt_of_dispatch h

theorem lt_of_mem_hierarchyTargets (hp : p.Grounded) {site : CallSite}
    (htarget : p.HasTarget site.target) {callee : FuncId} (h : callee ∈ p.hierarchyTargets site) :
    callee < p.functions.length := by
  unfold hierarchyTargets at h
  cases ht : site.target with
  | static func =>
    rw [ht] at h htarget
    rw [List.mem_singleton.mp h]
    exact htarget
  | invoke iface method =>
    rw [ht] at h
    exact hp.lt_of_mem_invokeTargets h
  | dynamic origin =>
    rw [ht] at h
    exact acceptsArgs_lt (List.mem_filter.mp h).2

/-- What reaches a site exists. -/
theorem hasAtom (hp : p.Grounded) {func : FuncId} {site : CallSite}
    (hsite : site ∈ (p.factsOf func).sites) {origin : Origin} (horigin : origin ∈ site.origins)
    {a : Atom} (h : p.ReachesOrigin a origin) : p.HasAtom a := by
  obtain ⟨func', source, hsource, ha⟩ := h.exists_listed (mem_origins_of_site hsite horigin)
  exact (hp.factsOf func').atoms source hsource a ha

theorem lt_of_mem_flowTargets (hp : p.Grounded) {func : FuncId} {site : CallSite}
    (hsite : site ∈ (p.factsOf func).sites) {callee : FuncId}
    (h : callee ∈ p.flowTargets p.flowGraph.solve site) : callee < p.functions.length := by
  have htarget := (hp.factsOf func).targets site hsite
  have hresolves := resolves_flowTargets (p := p) site
  generalize p.flowTargets p.flowGraph.solve site = targets at h hresolves
  cases hresolves with
  | static ht =>
    rw [ht] at htarget
    rw [List.mem_singleton.mp h]
    exact htarget
  | anyMethod ht hunknown => exact hp.lt_of_mem_invokeTargets h
  | methods ht hunknown hsorted hmem =>
    obtain ⟨ty, _, _, hmethod⟩ := (hmem callee).mp h
    exact hp.lt_of_methodOf hmethod
  | anyFunction ht hunknown => exact acceptsArgs_lt (List.mem_filter.mp h).2
  | functions ht hunknown hsorted hmem =>
    exact hp.hasAtom hsite (by simp [CallSite.origins, ht]) ((hmem callee).mp h)

end Program.Grounded

namespace Checked

/-! ## Types -/

section Types

variable (u : Universe)

def isInterfaceFrom : (fuel : Nat) → TypeId → Option Bool
  | 0, _ => some false
  | fuel + 1, id => do
    match (← u.types[id]?).kind with
    | .interface _ _ => some true
    | .defined (.named pkg name) =>
      match u.lookup pkg name with
      | some next => isInterfaceFrom fuel next
      | none => some false
    | _ => some false

def isInterface (id : TypeId) : Option Bool := isInterfaceFrom u Universe.maxDepth id

def methodEntriesFrom : (fuel : Nat) → TypeId → Option (List (String × FuncId))
  | 0, _ => some []
  | fuel + 1, id => do
    let t ← u.types[id]?
    let own := t.methods.entries.map fun (name, m) => (name, m.func)
    match t.kind with
    | .struct fields =>
      let concrete ← (u.embeddedIds fields).filterM fun e => (isInterface u e).map (!·)
      some (own ++ (← concrete.flatMapM (methodEntriesFrom fuel)))
    | _ => some own

def methodEntries (id : TypeId) : Option (List (String × FuncId)) :=
  methodEntriesFrom u (Universe.maxDepth + 1) id

def methodOf (id : TypeId) (name : String) : Option (Option FuncId) := do
  some ((← methodEntries u id).lookup name)

def interfaceMethodsFrom : (fuel : Nat) → TypeId → Option (List String)
  | 0, _ => some []
  | fuel + 1, id => do
    match (← u.types[id]?).kind with
    | .interface methods embedded =>
      let inner ← (embedded.filterMap u.idOf).flatMapM (interfaceMethodsFrom fuel)
      some (methods.map InterfaceMethod.name ++ inner)
    | .defined ty =>
      match u.idOf ty with
      | some inner => interfaceMethodsFrom fuel inner
      | none => some []
    | _ => some []

def interfaceMethods (id : TypeId) : Option (List String) :=
  interfaceMethodsFrom u (Universe.maxDepth + 1) id

def implements (concrete iface : TypeId) : Option Bool := do
  if ← isInterface u concrete then some false
  else
    let required ← interfaceMethods u iface
    let entries ← methodEntries u concrete
    some (!required.isEmpty && required.all fun name => (entries.lookup name).isSome)

/-- The method that an interface call reaches on a type. -/
def dispatch (iface : TypeId) (method : String) (ty : TypeId) : Option (Option FuncId) := do
  if ← implements u ty iface then methodOf u ty method else some none

def implementations (iface : TypeId) (name : String) : Option (List FuncId) := do
  some (← (List.range u.types.length).filterMapM (dispatch u iface name)).eraseDups

end Types

section

variable {u : Universe} {id iface : TypeId}

theorem isInterfaceFrom_eq (fuel : Nat) (hid : id < u.types.length) :
    isInterfaceFrom u fuel id = some (u.isInterfaceFrom fuel id) := by
  induction fuel generalizing id with
  | zero => rfl
  | succ fuel ih =>
    have ht := List.getElem?_eq_getElem hid
    simp only [isInterfaceFrom, Universe.isInterfaceFrom, Universe.kind?, ht, Option.map_some,
      Option.bind_eq_bind, Option.bind_some]
    cases u.types[id].kind with
    | struct fields => rfl
    | interface methods embedded => rfl
    | defined ty =>
      cases ty with
      | named pkg name =>
        cases hnext : u.lookup pkg name with
        | none => simp [hnext]
        | some next => simpa [hnext] using ih (Universe.lt_of_lookup hnext)
      | _ => rfl

theorem isInterface_eq (hid : id < u.types.length) : isInterface u id = some (u.isInterface id) :=
  isInterfaceFrom_eq _ hid

theorem lt_of_mem_embeddedIds {fields : List Field} (h : id ∈ u.embeddedIds fields) :
    id < u.types.length := by
  obtain ⟨f, _, hf⟩ := List.mem_filterMap.mp h
  exact Universe.lt_of_idOf hf

theorem methodEntriesFrom_eq (fuel : Nat) (hid : id < u.types.length) :
    methodEntriesFrom u fuel id = some (u.methodEntriesFrom fuel id) := by
  induction fuel generalizing id with
  | zero => rfl
  | succ fuel ih =>
    have ht := List.getElem?_eq_getElem hid
    simp only [methodEntriesFrom, Universe.methodEntriesFrom, ht, Option.bind_eq_bind,
      Option.bind_some]
    cases u.types[id].kind with
    | interface methods embedded => rfl
    | defined ty => rfl
    | struct fields =>
      have hconcrete : (u.embeddedIds fields).filterM (fun e => (isInterface u e).map (!·)) =
          some ((u.embeddedIds fields).filter fun e => !u.isInterface e) :=
        filterM_eq_some fun e he => by
          rw [isInterface_eq (lt_of_mem_embeddedIds he), Option.map_some]
      have hpromoted : ((u.embeddedIds fields).filter fun e => !u.isInterface e).flatMapM
          (methodEntriesFrom u fuel) = some (((u.embeddedIds fields).filter fun e =>
            !u.isInterface e).flatMap (u.methodEntriesFrom fuel)) :=
        flatMapM_eq_some fun e he => ih (lt_of_mem_embeddedIds (List.mem_filter.mp he).1)
      simp only [hconcrete, hpromoted, Option.bind_some]

theorem methodEntries_eq (hid : id < u.types.length) :
    methodEntries u id = some (u.methodEntries id) :=
  methodEntriesFrom_eq _ hid

theorem methodOf_eq (hid : id < u.types.length) (name : String) :
    methodOf u id name = some (u.methodOf id name) := by
  rw [methodOf, methodEntries_eq hid]
  rfl

theorem interfaceMethodsFrom_eq (fuel : Nat) (hid : id < u.types.length) :
    interfaceMethodsFrom u fuel id = some (u.interfaceMethodsFrom fuel id) := by
  induction fuel generalizing id with
  | zero => rfl
  | succ fuel ih =>
    have ht := List.getElem?_eq_getElem hid
    simp only [interfaceMethodsFrom, Universe.interfaceMethodsFrom, Universe.kind?, ht,
      Option.map_some, Option.bind_eq_bind, Option.bind_some]
    cases u.types[id].kind with
    | struct fields => rfl
    | interface methods embedded =>
      have hinner : (embedded.filterMap u.idOf).flatMapM (interfaceMethodsFrom u fuel) =
          some ((embedded.filterMap u.idOf).flatMap (u.interfaceMethodsFrom fuel)) := by
        refine flatMapM_eq_some fun e he => ih ?_
        obtain ⟨ty, _, hty⟩ := List.mem_filterMap.mp he
        exact Universe.lt_of_idOf hty
      simp only [hinner, Option.bind_some]
    | defined ty =>
      cases hinner : u.idOf ty with
      | none => simp only [hinner]
      | some inner => simpa only [hinner] using ih (Universe.lt_of_idOf hinner)

theorem implements_eq (hid : id < u.types.length) (hiface : iface < u.types.length) :
    implements u id iface = some (u.implements id iface) := by
  have hrequired : interfaceMethods u iface = some (u.interfaceMethods iface) :=
    interfaceMethodsFrom_eq _ hiface
  simp only [implements, isInterface_eq hid, hrequired, methodEntries_eq hid, Option.bind_eq_bind,
    Option.bind_some, Universe.implements, Universe.methodOf]
  cases u.isInterface id with
  | true => rfl
  | false => rfl

theorem dispatch_eq (hiface : iface < u.types.length) (method : String)
    (hid : id < u.types.length) : dispatch u iface method id =
      some (if u.implements id iface then u.methodOf id method else none) := by
  simp only [dispatch, implements_eq hid hiface, methodOf_eq hid, Option.bind_eq_bind,
    Option.bind_some]
  cases u.implements id iface with
  | true => rfl
  | false => rfl

theorem implementations_eq (hiface : iface < u.types.length) (name : String) :
    implementations u iface name = some (u.implementations iface name) := by
  have hfound : (List.range u.types.length).filterMapM (dispatch u iface name) =
      some ((List.range u.types.length).filterMap fun t =>
        if u.implements t iface then u.methodOf t name else none) :=
    filterMapM_eq_some fun t ht => dispatch_eq hiface name (List.mem_range.mp ht)
  rw [implementations, hfound]
  rfl

end

/-! ## Calls by declaration -/

section Hierarchy

variable (p : Program)

def acceptsArgs (count : Nat) (func : FuncId) : Option Bool := do
  some ((← p.functions[func]?).signature.accepts count)

/-- Every function whose address is taken has to be there, also one that is passed over in the
end. -/
def dynamicTargets (count : Nat) : Option (List FuncId) := do
  let _ ← (p.facts.flatMap Facts.addressTaken).mapM (acceptsArgs p count)
  p.addressTaken.filterM (acceptsArgs p count)

def hierarchyTargets (site : CallSite) : Option (List FuncId) :=
  match site.target with
  | .static callee => some [callee]
  | .invoke iface method => implementations p.decls iface method
  | .dynamic _ => dynamicTargets p site.args.length

def edgesBy (targets : CallSite → Option (List FuncId)) : Option (List CallEdge) :=
  p.facts.zipIdx.flatMapM fun x => x.1.sites.flatMapM fun site => do
    some ((← targets site).map fun callee => { caller := x.2, callee, line := site.line })

/-- Every function is added under the number that it carries. -/
def emptyGraph : CallGraph := (p.functions.map Function.id).foldl CallGraph.addNode ∅

def graphBy (targets : CallSite → Option (List FuncId)) : Option CallGraph := do
  some ((← edgesBy p targets).foldl CallGraph.addEdge (emptyGraph p))

end Hierarchy

section

variable {p : Program}

theorem acceptsArgs_eq {count : Nat} {func : FuncId} (h : func < p.functions.length) :
    acceptsArgs p count func = some (p.acceptsArgs count func) := by
  rw [acceptsArgs, Program.acceptsArgs, List.getElem?_eq_getElem h]
  rfl

theorem dynamicTargets_eq (hp : p.Grounded) (count : Nat) :
    dynamicTargets p count = some (p.dynamicTargets count) := by
  have htaken : (p.facts.flatMap Facts.addressTaken).mapM (acceptsArgs p count) =
      some ((p.facts.flatMap Facts.addressTaken).map (p.acceptsArgs count)) := by
    refine mapM_eq_some_map fun func hfunc => acceptsArgs_eq ?_
    obtain ⟨facts, hfacts, hfunc⟩ := List.mem_flatMap.mp hfunc
    obtain ⟨owner, howner⟩ := List.mem_iff_getElem?.mp hfacts
    exact (hp.facts owner facts howner).addresses func hfunc
  rw [dynamicTargets, htaken]
  refine filterM_eq_some fun func hfunc => acceptsArgs_eq ?_
  exact List.mem_range.mp (List.mem_filter.mp hfunc).1

theorem hierarchyTargets_eq (hp : p.Grounded) {site : CallSite}
    (htarget : p.HasTarget site.target) :
    hierarchyTargets p site = some (p.hierarchyTargets site) := by
  unfold hierarchyTargets Program.hierarchyTargets
  cases ht : site.target with
  | static callee => rfl
  | invoke iface method =>
    rw [ht] at htarget
    exact implementations_eq htarget method
  | dynamic callee => exact dynamicTargets_eq hp site.args.length

/-- The numbers that the functions carry are their places. -/
theorem emptyGraph_eq (hp : p.Grounded) : emptyGraph p = p.emptyGraph := by
  have hids : p.functions.map Function.id = List.range p.functions.length := by
    refine List.ext_getElem (by simp) fun id hid _ => ?_
    rw [List.getElem_map, List.getElem_range]
    exact hp.ids id _ (List.getElem?_eq_getElem (by simpa using hid))
  rw [emptyGraph, hids, CallGraph.foldl_addNode List.nodup_range]
  rfl

/-- A graph on all functions is the same if its sites are looked up with care. -/
theorem graphBy_eq (hp : p.Grounded) {targets : CallSite → Option (List FuncId)}
    {found : CallSite → List FuncId}
    (h : ∀ func, ∀ site ∈ (p.factsOf func).sites, targets site = some (found site)) :
    graphBy p targets = some (p.graphBy found) := by
  have hedges : edgesBy p targets = some (p.edgesBy found) := by
    refine flatMapM_eq_some fun x hx => flatMapM_eq_some fun site hsite => ?_
    have hfacts : p.factsOf x.2 = x.1 := by
      rw [Program.factsOf, List.mem_zipIdx_iff_getElem?.mp hx, Option.getD_some]
    rw [h x.2 site (hfacts ▸ hsite)]
    rfl
  rw [graphBy, hedges, emptyGraph_eq hp]
  rfl

end

/-! ## Calls by the flow of values -/

section ValueFlow

variable (p : Program)

/-- The function that is called is looked up, and nothing else is. -/
def callFlows (caller : FuncId) (index : Nat) (site : CallSite) (callee : FuncId) :
    Option (List Flow) := do
  let _ ← p.functions[callee]?
  some (p.callFlows caller index site callee)

def flowsOf (func : FuncId) (facts : Facts) : Option (List Flow) := do
  let called ← facts.sites.zipIdx.flatMapM fun x => do
    (← hierarchyTargets p x.1).flatMapM (callFlows p func x.2 x.1)
  some (facts.flows ++ called)

def flowGraph : Option FlowGraph := do
  let flows ← p.facts.zipIdx.flatMapM fun x => flowsOf p x.2 x.1
  some (flows.foldl FlowGraph.connect {})

def methodsOn (iface : TypeId) (method : String) (atoms : List Atom) : Option (List FuncId) := do
  let found ← atoms.filterMapM fun
    | .type ty => dispatch p.decls iface method ty
    | _ => some none
  some (Program.ascending found)

def flowTargets (solution : FlowGraph) (site : CallSite) : Option (List FuncId) :=
  match site.target with
  | .static callee => some [callee]
  | .invoke iface method =>
    let values := (site.recv.map solution.valuesOf).getD []
    if values.contains .opaqueValue then implementations p.decls iface method
    else methodsOn p iface method values
  | .dynamic callee =>
    let values := solution.valuesOf callee
    if values.contains .opaqueValue then dynamicTargets p site.args.length
    else some (Program.functionsIn values)

def valueFlowGraph : Option CallGraph := do
  graphBy p (flowTargets p (← flowGraph p).solve)

end ValueFlow

section

variable {p : Program}

theorem flowsOf_eq (hp : p.Grounded) {func : FuncId} {facts : Facts}
    (hfacts : p.FactsGrounded func facts) : flowsOf p func facts = some (p.flowsOf func facts) := by
  have hcalled : (facts.sites.zipIdx.flatMapM fun x => do
      (← hierarchyTargets p x.1).flatMapM (callFlows p func x.2 x.1)) =
      some (facts.sites.zipIdx.flatMap fun x =>
        (p.hierarchyTargets x.1).flatMap (p.callFlows func x.2 x.1)) := by
    refine flatMapM_eq_some fun x hx => ?_
    have htarget := hfacts.targets x.1 (List.fst_mem_of_mem_zipIdx hx)
    rw [hierarchyTargets_eq hp htarget]
    refine flatMapM_eq_some fun callee hcallee => ?_
    rw [callFlows, List.getElem?_eq_getElem (hp.lt_of_mem_hierarchyTargets htarget hcallee)]
    rfl
  rw [flowsOf, hcalled]
  rfl

theorem flowGraph_eq (hp : p.Grounded) : flowGraph p = some p.flowGraph := by
  have hflows : (p.facts.zipIdx.flatMapM fun x => flowsOf p x.2 x.1) =
      some (p.facts.zipIdx.flatMap fun x => p.flowsOf x.2 x.1) :=
    flatMapM_eq_some fun x hx =>
      flowsOf_eq hp (hp.facts x.2 x.1 (List.mem_zipIdx_iff_getElem?.mp hx))
  rw [flowGraph, hflows]
  rfl

theorem methodsOn_eq {iface : TypeId} (hiface : iface < p.decls.types.length) (method : String)
    {atoms : List Atom} (hatoms : ∀ a ∈ atoms, p.HasAtom a) :
    methodsOn p iface method atoms = some (p.methodsOn iface method atoms) := by
  unfold methodsOn
  rw [filterMapM_eq_some]
  · rfl
  · intro a ha
    cases a with
    | func id => rfl
    | type ty => exact dispatch_eq hiface method (hatoms _ ha)
    | opaqueValue => rfl

theorem flowTargets_eq (hp : p.Grounded) {func : FuncId} {site : CallSite}
    (hsite : site ∈ (p.factsOf func).sites) :
    flowTargets p p.flowGraph.solve site = some (p.flowTargets p.flowGraph.solve site) := by
  have htarget := (hp.factsOf func).targets site hsite
  unfold flowTargets Program.flowTargets
  cases ht : site.target with
  | static callee => rfl
  | invoke iface method =>
    rw [ht] at htarget
    have hvalues : ∀ a ∈ (site.recv.map p.flowGraph.solve.valuesOf).getD [], p.HasAtom a := by
      intro a ha
      obtain ⟨origin, horigin, hreaches⟩ := Program.mem_received.mp ha
      exact hp.hasAtom hsite (by simp [CallSite.origins, Option.mem_def.mp horigin]) hreaches
    dsimp only
    split
    · exact implementations_eq htarget method
    · exact methodsOn_eq htarget method hvalues
  | dynamic callee =>
    dsimp only
    split
    · exact dynamicTargets_eq hp site.args.length
    · rfl

theorem valueFlowGraph_eq (hp : p.Grounded) : valueFlowGraph p = some p.valueFlowGraph := by
  rw [valueFlowGraph, flowGraph_eq hp]
  exact graphBy_eq hp fun func site hsite => flowTargets_eq hp hsite

end

end Checked

end CallAtlas
