import CallAtlas.Proofs.Checked.Targets

/-!
# Reaching code with every access checked

The functions, types and sites that are found on the way are kept in lists of their own. Whatever
stands in them has come from the facts of a function or from the methods of a type, so it is there
(`Found`), and every step can look it up.
-/

set_option autoImplicit false

namespace CallAtlas

/-! ## Graphs on the functions of a program -/

/-- All functions of the graph have numbers below `n`. -/
structure CallGraph.Below (n : Nat) (g : CallGraph) : Prop extends g.WellFormed where
  lt : ∀ f ∈ g.nodes, f < n

namespace CallGraph.Below

variable {n : Nat} {g : CallGraph}

theorem addNode (hg : g.Below n) {func : FuncId} (h : func < n) : (g.addNode func).Below n := by
  refine ⟨hg.toWellFormed.addNode func, fun f hf => ?_⟩
  rcases mem_addNode.mp hf with hf | rfl
  · exact hg.lt f hf
  · exact h

theorem addEdge (hg : g.Below n) {edge : CallEdge} (hcaller : edge.caller < n)
    (hcallee : edge.callee < n) : (g.addEdge edge).Below n :=
  ⟨hg.toWellFormed.addEdge edge, ((hg.addNode hcaller).addNode hcallee).lt⟩

theorem foldl_addEdge (hg : g.Below n) {edges : List CallEdge}
    (h : ∀ e ∈ edges, e.caller < n ∧ e.callee < n) : (edges.foldl CallGraph.addEdge g).Below n :=
  List.foldlRecOn edges CallGraph.addEdge hg fun _ hg e he => hg.addEdge (h e he).1 (h e he).2

end CallGraph.Below

namespace Checked

/-! ## Calls of reachable code -/

section Rapid

open Rapid (OpenInvoke State)

variable (p : Program)

def reach (s : State) (func : FuncId) : Option State := do
  let _ ← p.functions[func]?
  some (s.reach func)

def call (s : State) (edge : CallEdge) : Option State := do
  let _ ← p.functions[edge.callee]?
  some (s.call edge)

def link (ty : TypeId) (site : OpenInvoke) : Option (OpenInvoke × Option CallEdge) := do
  match ← dispatch p.decls site.iface site.method ty with
  | none => some (site, none)
  | some callee =>
    if site.linked.contains callee then some (site, none)
    else
      some ({ site with linked := site.linked ++ [callee] }, some ⟨site.caller, callee, site.line⟩)

def allocate (s : State) (ty : TypeId) : Option State :=
  if s.allocated.contains ty then some s
  else do
    let linked ← s.invokes.mapM (link p ty)
    let s := { s with allocated := s.allocated ++ [ty], invokes := linked.map Prod.fst }
    (linked.filterMap Prod.snd).foldlM (call p) s

def take (s : State) (func : FuncId) : Option State :=
  if s.taken.contains func then some s
  else do
    let _ ← p.functions[func]?
    let sites ← s.dynamics.filterM fun site => acceptsArgs p site.args func
    let edges := sites.map fun site => (⟨site.caller, func, site.line⟩ : CallEdge)
    edges.foldlM (call p) { s with taken := s.taken ++ [func] }

def addSite (caller : FuncId) (s : State) (site : CallSite) : Option State :=
  match site.target with
  | .static callee => call p s ⟨caller, callee, site.line⟩
  | .invoke iface method => do
    let linked := (← s.allocated.filterMapM (dispatch p.decls iface method)).eraseDups
    let s ← (linked.map fun callee => (⟨caller, callee, site.line⟩ : CallEdge)).foldlM (call p) s
    some { s with invokes := s.invokes ++ [⟨caller, site.line, iface, method, linked⟩] }
  | .dynamic _ => do
    let args := site.args.length
    let callees ← s.taken.filterM (acceptsArgs p args)
    let s ← (callees.map fun callee => (⟨caller, callee, site.line⟩ : CallEdge)).foldlM (call p) s
    some { s with dynamics := s.dynamics ++ [⟨caller, site.line, args⟩] }

def visit (s : State) (func : FuncId) : Option State := do
  let facts ← p.facts[func]?
  let s ← facts.allocations.foldlM (allocate p) s
  let s ← facts.addressTaken.foldlM (take p) s
  facts.sites.foldlM (addSite p func) s

def run : (fuel : Nat) → State → Option State
  | 0, s => some s
  | fuel + 1, s =>
    match s.queue with
    | [] => some s
    | func :: queue => do run fuel (← visit p { s with queue } func)

def rapidGraph? : Option (Option CallGraph) :=
  match p.mainFunctions with
  | [] => some none
  | mains => do
    let s ← mains.foldlM (reach p) {}
    some (some (← run p p.functions.length s).graph)

end Rapid

section

open Rapid (OpenInvoke State)

variable {p : Program} {s : State}

/-- What has been found so far is there, and so are the nodes of the graph. -/
structure Found (p : Program) (s : State) : Prop where
  graph : s.graph.Below p.functions.length
  queue : ∀ func ∈ s.queue, func < p.functions.length
  allocated : ∀ ty ∈ s.allocated, ty < p.decls.types.length
  taken : ∀ func ∈ s.taken, func < p.functions.length
  invokes : ∀ site ∈ s.invokes, site.caller < p.functions.length ∧ site.iface < p.decls.types.length
  dynamics : ∀ site ∈ s.dynamics, site.caller < p.functions.length

theorem reach_eq (hs : Found p s) {func : FuncId} (h : func < p.functions.length) :
    reach p s func = some (s.reach func) ∧ Found p (s.reach func) := by
  refine ⟨by rw [reach, List.getElem?_eq_getElem h]; rfl, ?_⟩
  unfold Rapid.State.reach
  split
  · exact hs
  · have hqueue := List.forall_mem_append.mpr ⟨hs.queue, List.forall_mem_singleton.mpr h⟩
    exact ⟨hs.graph.addNode h, hqueue, hs.allocated, hs.taken, hs.invokes, hs.dynamics⟩

theorem call_eq (hs : Found p s) {edge : CallEdge} (hcaller : edge.caller < p.functions.length)
    (hcallee : edge.callee < p.functions.length) :
    call p s edge = some (s.call edge) ∧ Found p (s.call edge) := by
  have hreach := (reach_eq hs hcallee).2
  refine ⟨by rw [call, List.getElem?_eq_getElem hcallee]; rfl, ?_⟩
  exact ⟨hreach.graph.addEdge hcaller hcallee, hreach.queue, hreach.allocated, hreach.taken,
    hreach.invokes, hreach.dynamics⟩

theorem foldlM_call_eq (hs : Found p s) {edges : List CallEdge}
    (h : ∀ e ∈ edges, e.caller < p.functions.length ∧ e.callee < p.functions.length) :
    edges.foldlM (call p) s = some (edges.foldl State.call s) ∧
      Found p (edges.foldl State.call s) :=
  foldlM_eq_some (I := Found p) (fun _ ht e he => call_eq ht (h e he).1 (h e he).2) hs

theorem link_eq {ty : TypeId} (hty : ty < p.decls.types.length) {site : OpenInvoke}
    (hiface : site.iface < p.decls.types.length) : link p ty site = some (site.link p ty) := by
  rw [link, dispatch_eq hiface site.method hty, OpenInvoke.link, Rapid.dispatch]
  cases (if p.decls.implements ty site.iface then p.decls.methodOf ty site.method else none) with
  | none => rfl
  | some callee => exact (apply_ite some (site.linked.contains callee = true) _ _).symm

/-- Linking keeps the site and finds a call of a method. -/
theorem link_found (hp : p.Grounded) (ty : TypeId) (site : OpenInvoke) :
    (site.link p ty).1.caller = site.caller ∧ (site.link p ty).1.iface = site.iface ∧
      ∀ e, (site.link p ty).2 = some e → e.caller = site.caller ∧
        e.callee < p.functions.length := by
  unfold OpenInvoke.link
  split
  · exact ⟨rfl, rfl, fun e he => by cases he⟩
  · rename_i callee hcallee
    split
    · exact ⟨rfl, rfl, fun e he => by cases he⟩
    · refine ⟨rfl, rfl, fun e he => ?_⟩
      obtain rfl := Option.some.inj he
      exact ⟨rfl, hp.lt_of_dispatch hcallee⟩

theorem allocate_eq (hp : p.Grounded) (hs : Found p s) {ty : TypeId}
    (hty : ty < p.decls.types.length) :
    allocate p s ty = some (Rapid.allocate p s ty) ∧ Found p (Rapid.allocate p s ty) := by
  unfold allocate Rapid.allocate
  split
  · exact ⟨rfl, hs⟩
  · have hlinked : s.invokes.mapM (link p ty) = some (s.invokes.map (OpenInvoke.link p ty)) :=
      mapM_eq_some_map fun site hsite => link_eq hty (hs.invokes site hsite).2
    rw [hlinked]
    dsimp only [Option.bind_eq_bind, Option.bind_some]
    refine foldlM_call_eq ?_ fun e he => ?_
    · have htypes := List.forall_mem_append.mpr ⟨hs.allocated, List.forall_mem_singleton.mpr hty⟩
      refine ⟨hs.graph, hs.queue, htypes, hs.taken, fun site hsite => ?_, hs.dynamics⟩
      rw [List.map_map] at hsite
      obtain ⟨old, hold, rfl⟩ := List.mem_map.mp hsite
      obtain ⟨hcaller, hiface, _⟩ := link_found hp ty old
      show (old.link p ty).1.caller < _ ∧ (old.link p ty).1.iface < _
      rw [hcaller, hiface]
      exact hs.invokes old hold
    · obtain ⟨linked, hmem, he⟩ := List.mem_filterMap.mp he
      obtain ⟨old, hold, rfl⟩ := List.mem_map.mp hmem
      obtain ⟨hcaller, hcallee⟩ := (link_found hp ty old).2.2 e he
      exact ⟨hcaller ▸ (hs.invokes old hold).1, hcallee⟩

theorem take_eq (hs : Found p s) {func : FuncId} (hfunc : func < p.functions.length) :
    take p s func = some (Rapid.take p s func) ∧ Found p (Rapid.take p s func) := by
  unfold take Rapid.take
  split
  · exact ⟨rfl, hs⟩
  · have hsites : (s.dynamics.filterM fun site => acceptsArgs p site.args func) =
        some (s.dynamics.filter fun site => p.acceptsArgs site.args func) :=
      filterM_eq_some fun site _ => acceptsArgs_eq hfunc
    rw [List.getElem?_eq_getElem hfunc, hsites]
    dsimp only [Option.bind_eq_bind, Option.bind_some]
    refine foldlM_call_eq ?_ fun e he => ?_
    · have htaken := List.forall_mem_append.mpr ⟨hs.taken, List.forall_mem_singleton.mpr hfunc⟩
      exact ⟨hs.graph, hs.queue, hs.allocated, htaken, hs.invokes, hs.dynamics⟩
    · obtain ⟨site, hsite, rfl⟩ := List.mem_map.mp he
      exact ⟨hs.dynamics site (List.mem_filter.mp hsite).1, hfunc⟩

theorem addSite_eq (hp : p.Grounded) (hs : Found p s) {caller : FuncId}
    (hcaller : caller < p.functions.length) {site : CallSite} (htarget : p.HasTarget site.target) :
    addSite p caller s site = some (Rapid.addSite p caller s site) ∧
      Found p (Rapid.addSite p caller s site) := by
  -- the calls of the site lead to callees that are there, and then the site itself is kept
  have hcalls (callees : List FuncId) (h : ∀ callee ∈ callees, callee < p.functions.length) :=
    @foldlM_call_eq p s hs (callees.map fun callee => ⟨caller, callee, site.line⟩) fun e he => by
      obtain ⟨callee, hcallee, rfl⟩ := List.mem_map.mp he
      exact ⟨hcaller, h callee hcallee⟩
  unfold addSite Rapid.addSite
  cases ht : site.target with
  | static callee =>
    rw [ht] at htarget
    exact call_eq hs hcaller htarget
  | invoke iface method =>
    rw [ht] at htarget
    have hlinked : s.allocated.filterMapM (dispatch p.decls iface method) =
        some (s.allocated.filterMap (Rapid.dispatch p iface method)) :=
      filterMapM_eq_some fun ty hty => dispatch_eq htarget method (hs.allocated ty hty)
    obtain ⟨heq, hfound⟩ :=
      hcalls (s.allocated.filterMap (Rapid.dispatch p iface method)).eraseDups fun callee h => by
        obtain ⟨ty, _, hty⟩ := List.mem_filterMap.mp (List.mem_eraseDups.mp h)
        exact hp.lt_of_dispatch hty
    dsimp only [Option.bind_eq_bind]
    rw [hlinked, Option.bind_some, heq]
    refine ⟨rfl, hfound.graph, hfound.queue, hfound.allocated, hfound.taken, ?_, hfound.dynamics⟩
    exact List.forall_mem_append.mpr ⟨hfound.invokes,
      List.forall_mem_singleton.mpr ⟨hcaller, htarget⟩⟩
  | dynamic callee =>
    have hcallees : s.taken.filterM (acceptsArgs p site.args.length) =
        some (s.taken.filter (p.acceptsArgs site.args.length)) :=
      filterM_eq_some fun func hfunc => acceptsArgs_eq (hs.taken func hfunc)
    obtain ⟨heq, hfound⟩ := hcalls (s.taken.filter (p.acceptsArgs site.args.length))
      fun func hfunc => hs.taken func (List.mem_filter.mp hfunc).1
    dsimp only [Option.bind_eq_bind]
    rw [hcallees, Option.bind_some, heq]
    refine ⟨rfl, hfound.graph, hfound.queue, hfound.allocated, hfound.taken, hfound.invokes, ?_⟩
    exact List.forall_mem_append.mpr ⟨hfound.dynamics, List.forall_mem_singleton.mpr hcaller⟩

theorem visit_eq (hp : p.Grounded) (hs : Found p s) {func : FuncId}
    (hfunc : func < p.functions.length) :
    visit p s func = some (Rapid.visit p s func) ∧ Found p (Rapid.visit p s func) := by
  have hfacts : p.facts[func]? = some (p.factsOf func) := by
    rw [Program.factsOf, List.getElem?_eq_getElem (hp.length ▸ hfunc), Option.getD_some]
  have hground := hp.factsOf func
  obtain ⟨hallocated, hs⟩ := foldlM_eq_some (I := Found p) (f := allocate p) (g := Rapid.allocate p)
    (fun _ ht ty hty => allocate_eq hp ht (hground.allocations ty hty)) hs
  obtain ⟨htaken, hs⟩ := foldlM_eq_some (I := Found p) (f := take p) (g := Rapid.take p)
    (fun _ ht f hf => take_eq ht (hground.addresses f hf)) hs
  obtain ⟨hsites, hs⟩ := foldlM_eq_some (I := Found p) (f := addSite p func)
    (g := Rapid.addSite p func) (fun _ ht site hsite =>
      addSite_eq hp ht hfunc (hground.targets site hsite)) hs
  unfold visit
  dsimp only [Option.bind_eq_bind]
  rw [hfacts, Option.bind_some, hallocated, Option.bind_some, htaken, Option.bind_some, hsites]
  exact ⟨rfl, hs⟩

theorem run_eq (hp : p.Grounded) (fuel : Nat) (hs : Found p s) :
    run p fuel s = some (Rapid.run p fuel s) ∧ Found p (Rapid.run p fuel s) := by
  induction fuel generalizing s with
  | zero => exact ⟨rfl, hs⟩
  | succ fuel ih =>
    unfold run Rapid.run
    cases hq : s.queue with
    | nil => exact ⟨rfl, hs⟩
    | cons func queue =>
      have hwaiting : Found p { s with queue } :=
        ⟨hs.graph, fun f hf => hs.queue f (hq ▸ List.mem_cons_of_mem _ hf), hs.allocated, hs.taken,
          hs.invokes, hs.dynamics⟩
      obtain ⟨heq, hvisited⟩ := visit_eq hp hwaiting (hs.queue func (hq ▸ List.mem_cons_self))
      dsimp only [Option.bind_eq_bind]
      rw [heq, Option.bind_some]
      exact ih hvisited

theorem rapidGraph?_eq (hp : p.Grounded) :
    rapidGraph? p = some p.rapidGraph? ∧ ∀ g, p.rapidGraph? = some g →
      g.Below p.functions.length := by
  have hnothing : Found p {} := by
    constructor
    case graph => exact ⟨CallGraph.wellFormed_empty, fun _ h => absurd h List.not_mem_nil⟩
    all_goals exact fun _ h => absurd h List.not_mem_nil
  obtain ⟨hreach, hfound⟩ := foldlM_eq_some (I := Found p) (f := reach p) (g := State.reach)
    (fun _ ht f hf => reach_eq ht (hp.lt_of_mem_mainFunctions hf)) hnothing
  obtain ⟨hrun, hfound⟩ := run_eq hp p.functions.length hfound
  unfold rapidGraph? Program.rapidGraph?
  cases hmains : p.mainFunctions with
  | nil => exact ⟨rfl, fun g hg => by cases hg⟩
  | cons main mains =>
    rw [hmains] at hreach hrun hfound
    dsimp only [Option.bind_eq_bind]
    rw [hreach, Option.bind_some, hrun]
    refine ⟨rfl, fun g hg => ?_⟩
    obtain rfl := Option.some.inj hg
    exact hfound.graph

end

end Checked

end CallAtlas
