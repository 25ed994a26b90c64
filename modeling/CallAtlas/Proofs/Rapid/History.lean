import CallAtlas.Analysis.Rapid
import CallAtlas.Proofs.Distinct
import CallAtlas.Proofs.Graph

/-!
# What the rapid analysis knows at every moment

A site may be found before or after the type or the address that it can reach, and the analysis
links the two in either case, by different code. The invariant here does away with the order. A
visit is a list of *findings* (a type, an address, a site), and after any list of findings the whole
state is a function of that list, up to the order of the edges: the types and addresses are those
found, each once, the open sites are the sites found, and there is one edge for every site found and
every target that it has among the types and addresses found (`Remembers`).

That the invariant is kept by one more finding is `Remembers.note`, and its three cases are the
three ways in which an edge comes about. Nothing in it says which function was visited when.
-/

set_option autoImplicit false

namespace CallAtlas

/-- What a site calls if these are the types that are allocated and these the functions whose
address is taken: for an interface call the methods on the types that implement the interface, for a
call of a function value the functions that accept the number of arguments, each once. -/
def Program.targetsAmong (p : Program) (types : List TypeId) (addresses : List FuncId)
    (site : CallSite) : List FuncId :=
  match site.target with
  | .static callee => [callee]
  | .invoke iface method =>
    ((types.filter fun ty => p.decls.implements ty iface).filterMap fun ty =>
      p.decls.methodOf ty method).eraseDups
  | .dynamic _ => (addresses.filter (p.acceptsArgs site.args.length)).eraseDups

namespace Rapid

/-! ## Findings -/

/-- What a visit finds, one at a time. -/
inductive Finding where
  | type (ty : TypeId)
  | address (func : FuncId)
  | site (caller : FuncId) (site : CallSite)
deriving DecidableEq, Repr, Inhabited

/-- A finding is taken in. -/
def note (p : Program) (s : State) : Finding → State
  | .type ty => allocate p s ty
  | .address func => take p s func
  | .site caller site => addSite p caller s site

/-- What the visit of a function finds. -/
def findingsOf (p : Program) (func : FuncId) : List Finding :=
  (p.factsOf func).allocations.map .type ++ (p.factsOf func).addressTaken.map .address ++
    (p.factsOf func).sites.map (.site func)

theorem visit_eq_foldl_note (p : Program) (s : State) (func : FuncId) :
    visit p s func = (findingsOf p func).foldl (note p) s := by
  simp only [visit, findingsOf, List.foldl_append, List.foldl_map]
  rfl

/-- The types among findings. -/
def typesIn (fs : List Finding) : List TypeId :=
  fs.filterMap fun
    | .type ty => some ty
    | _ => none

/-- The addresses among findings. -/
def addressesIn (fs : List Finding) : List FuncId :=
  fs.filterMap fun
    | .address func => some func
    | _ => none

/-- The sites among findings, each with its function. -/
def sitesIn (fs : List Finding) : List (FuncId × CallSite) :=
  fs.filterMap fun
    | .site caller site => some (caller, site)
    | _ => none

/-! ## Calls

A call adds its edge and, if the callee is new, a node and an entry of the queue. Nothing else
changes, which is why the statement is an equation between states. -/

theorem call_eq {s : State} {edge : CallEdge} (hcaller : edge.caller ∈ s.graph.nodes) :
    s.call edge =
      if edge.callee ∈ s.graph.nodes then
        { s with graph := ⟨s.graph.nodes, s.graph.edges ++ [edge]⟩ }
      else
        { s with
          graph := ⟨s.graph.nodes ++ [edge.callee], s.graph.edges ++ [edge]⟩
          queue := s.queue ++ [edge.callee] } := by
  by_cases h : edge.callee ∈ s.graph.nodes
  · rw [if_pos h, State.call, State.reach, if_pos (CallGraph.contains_iff.mpr h)]
    simp only [CallGraph.addEdge_of_mem hcaller h]
  · rw [if_neg h, State.call, State.reach, if_neg (fun hc => h (CallGraph.contains_iff.mp hc))]
    simp only [CallGraph.addNode_of_notMem h]
    rw [CallGraph.addEdge_of_mem (List.mem_append_left _ hcaller) (by simp)]

/-- What a list of calls does. The new nodes are exactly the new entries of the queue. -/
theorem foldl_call_eq (edges : List CallEdge) (s : State)
    (hcaller : ∀ e ∈ edges, e.caller ∈ s.graph.nodes) :
    ∃ new, edges.foldl State.call s =
        { s with
          graph := ⟨s.graph.nodes ++ new, s.graph.edges ++ edges⟩
          queue := s.queue ++ new } ∧
      (s.graph.nodes.Nodup → (s.graph.nodes ++ new).Nodup) ∧
      ∀ f, f ∈ s.graph.nodes ++ new ↔ f ∈ s.graph.nodes ∨ f ∈ edges.map CallEdge.callee := by
  induction edges generalizing s with
  | nil => exact ⟨[], by simp, by simp, by simp⟩
  | cons edge rest ih =>
    have hedge := hcaller edge List.mem_cons_self
    rw [List.foldl_cons, call_eq hedge]
    by_cases h : edge.callee ∈ s.graph.nodes
    · rw [if_pos h]
      obtain ⟨new, heq, hnodup, hmem⟩ := ih
        { s with graph := ⟨s.graph.nodes, s.graph.edges ++ [edge]⟩ }
        (fun e he => hcaller e (List.mem_cons_of_mem _ he))
      refine ⟨new, by rw [heq]; simp, hnodup, fun f => ?_⟩
      rw [hmem f, List.map_cons, List.mem_cons]
      exact ⟨Or.imp_right Or.inr, fun hf => hf.elim Or.inl (Or.imp_left fun hf => hf ▸ h)⟩
    · rw [if_neg h]
      obtain ⟨new, heq, hnodup, hmem⟩ := ih
        { s with
          graph := ⟨s.graph.nodes ++ [edge.callee], s.graph.edges ++ [edge]⟩
          queue := s.queue ++ [edge.callee] }
        (fun e he => List.mem_append_left _ (hcaller e (List.mem_cons_of_mem _ he)))
      refine ⟨edge.callee :: new, by rw [heq]; simp, fun hn => ?_, fun f => ?_⟩
      · have hn' : (s.graph.nodes ++ [edge.callee]).Nodup := by
          rw [List.nodup_append]
          refine ⟨hn, by simp, ?_⟩
          intro a ha b hb hab
          rw [List.mem_singleton] at hb
          exact h (hb ▸ hab ▸ ha)
        simpa using hnodup hn'
      · have hf := hmem f
        rw [List.append_assoc, List.singleton_append] at hf
        rw [hf, List.map_cons, List.mem_cons, List.mem_append, List.mem_singleton, or_assoc]

/-! ## One more type, one more address

An open interface call carries the methods it is linked to. They are its targets among the types so
far, so the two cases of `OpenInvoke.link` are the two cases of removing repetitions: the method of
the new type is among them or it stands behind them. -/

/-- The open interface call that a site leaves behind if these are the types so far. -/
def openInvoke (p : Program) (types : List TypeId) (x : FuncId × CallSite) : Option OpenInvoke :=
  match x.2.target with
  | .invoke iface method => some ⟨x.1, x.2.line, iface, method, p.targetsAmong types [] x.2⟩
  | _ => none

/-- The open call of a function value that a site leaves behind. -/
def openDynamic (x : FuncId × CallSite) : Option OpenDynamic :=
  match x.2.target with
  | .dynamic _ => some ⟨x.1, x.2.line, x.2.args.length⟩
  | _ => none

/-- The edges of a site to its targets among these types and addresses. -/
def edgesAmong (p : Program) (types : List TypeId) (addresses : List FuncId)
    (x : FuncId × CallSite) : List CallEdge :=
  Program.siteEdges (p.targetsAmong types addresses) x.1 x.2

section Growth

variable {p : Program} {types : List TypeId} {addresses : List FuncId} {ty : TypeId} {func : FuncId}
  {x : FuncId × CallSite} {site : CallSite} {iface : TypeId} {method : String}

theorem targetsAmong_invoke (h : site.target = .invoke iface method) :
    p.targetsAmong types addresses site
      = (types.filterMap (dispatch p iface method)).eraseDups := by
  simp only [Program.targetsAmong, h, List.filterMap_filter]
  rfl

theorem targetsAmong_dynamic {callee : Origin} (h : site.target = .dynamic callee) :
    p.targetsAmong types addresses site
      = (addresses.filter (p.acceptsArgs site.args.length)).eraseDups := by
  simp only [Program.targetsAmong, h]

/-- What `OpenInvoke.link` does to the open call of a site. -/
theorem link_openInvoke {o : OpenInvoke} (ho : openInvoke p types x = some o)
    (addresses : List FuncId) (ty : TypeId) :
    openInvoke p (types ++ [ty]) x = some (OpenInvoke.link p ty o).1 ∧
      edgesAmong p (types ++ [ty]) addresses x
        = edgesAmong p types addresses x ++ (OpenInvoke.link p ty o).2.toList := by
  cases ht : x.2.target with
  | static callee => simp [openInvoke, ht] at ho
  | dynamic callee => simp [openInvoke, ht] at ho
  | invoke iface method =>
    have htargets : ∀ types addresses, p.targetsAmong types addresses x.2
        = (types.filterMap (dispatch p iface method)).eraseDups :=
      fun _ _ => targetsAmong_invoke ht
    simp only [openInvoke, ht, Option.some.injEq, htargets] at ho ⊢
    subst ho
    simp only [edgesAmong, Program.siteEdges, htargets, List.filterMap_append]
    cases hd : dispatch p iface method ty with
    | none => simp [OpenInvoke.link, hd]
    | some callee =>
      by_cases hmem : callee ∈ types.filterMap (dispatch p iface method)
      · rw [List.filterMap_cons_some hd, List.filterMap_nil, eraseDups_concat_of_mem hmem]
        have hc : (types.filterMap (dispatch p iface method)).eraseDups.contains callee = true := by
          rw [List.contains_iff_mem, List.mem_eraseDups]
          exact hmem
        simp only [OpenInvoke.link, hd, if_pos hc, Option.toList_none, List.append_nil, and_self]
      · rw [List.filterMap_cons_some hd, List.filterMap_nil, eraseDups_concat_of_notMem hmem]
        have hc : ¬(types.filterMap (dispatch p iface method)).eraseDups.contains
            callee = true := by
          rw [List.contains_iff_mem, List.mem_eraseDups]
          exact hmem
        simp only [OpenInvoke.link, hd, if_neg hc, List.map_append, List.map_cons, List.map_nil,
          Option.toList_some, and_self]

/-- A type that was found before links nothing. -/
theorem link_openInvoke_of_mem {o : OpenInvoke} (ho : openInvoke p types x = some o)
    (h : ty ∈ types) : OpenInvoke.link p ty o = (o, none) := by
  cases ht : x.2.target with
  | static callee => simp [openInvoke, ht] at ho
  | dynamic callee => simp [openInvoke, ht] at ho
  | invoke iface method =>
    simp only [openInvoke, ht, Option.some.injEq, targetsAmong_invoke ht] at ho
    subst ho
    cases hd : dispatch p iface method ty with
    | none => simp [OpenInvoke.link, hd]
    | some callee =>
      have hc : (types.filterMap (dispatch p iface method)).eraseDups.contains callee = true := by
        rw [List.contains_iff_mem, List.mem_eraseDups]
        exact List.mem_filterMap.mpr ⟨ty, h, hd⟩
      simp only [OpenInvoke.link, hd, if_pos hc]

theorem openInvoke_concat (x : FuncId × CallSite) :
    openInvoke p (types ++ [ty]) x
      = (openInvoke p types x).map fun o => (OpenInvoke.link p ty o).1 := by
  cases ho : openInvoke p types x with
  | some o => exact (link_openInvoke ho [] ty).1
  | none =>
    cases ht : x.2.target with
    | invoke iface method => simp [openInvoke, ht] at ho
    | static callee => simp [openInvoke, ht]
    | dynamic callee => simp [openInvoke, ht]

theorem edgesAmong_concat_type (x : FuncId × CallSite) :
    edgesAmong p (types ++ [ty]) addresses x = edgesAmong p types addresses x ++
      ((openInvoke p types x).bind fun o => (OpenInvoke.link p ty o).2).toList := by
  cases ho : openInvoke p types x with
  | some o => exact (link_openInvoke ho addresses ty).2
  | none =>
    cases ht : x.2.target with
    | invoke iface method => simp [openInvoke, ht] at ho
    | static callee => simp [edgesAmong, Program.siteEdges, Program.targetsAmong, ht]
    | dynamic callee => simp [edgesAmong, Program.siteEdges, Program.targetsAmong, ht]

theorem edgesAmong_concat_address_of_mem (h : func ∈ addresses) (x : FuncId × CallSite) :
    edgesAmong p types (addresses ++ [func]) x = edgesAmong p types addresses x := by
  cases ht : x.2.target with
  | static callee => simp [edgesAmong, Program.siteEdges, Program.targetsAmong, ht]
  | invoke iface method => simp [edgesAmong, Program.siteEdges, Program.targetsAmong, ht]
  | dynamic callee =>
    simp only [edgesAmong, Program.siteEdges, targetsAmong_dynamic ht, List.filter_append]
    by_cases hq : p.acceptsArgs x.2.args.length func
    · rw [List.filter_cons_of_pos hq, List.filter_nil,
        eraseDups_concat_of_mem (List.mem_filter.mpr ⟨h, hq⟩)]
    · rw [List.filter_cons_of_neg hq, List.filter_nil, List.append_nil]

theorem edgesAmong_concat_address (h : func ∉ addresses) (x : FuncId × CallSite) :
    edgesAmong p types (addresses ++ [func]) x = edgesAmong p types addresses x ++
      (((openDynamic x).filter fun o => p.acceptsArgs o.args func).map fun o =>
        (⟨o.caller, func, o.line⟩ : CallEdge)).toList := by
  cases ht : x.2.target with
  | static callee => simp [edgesAmong, Program.siteEdges, Program.targetsAmong, openDynamic, ht]
  | invoke iface method =>
    simp [edgesAmong, Program.siteEdges, Program.targetsAmong, openDynamic, ht]
  | dynamic callee =>
    simp only [edgesAmong, Program.siteEdges, targetsAmong_dynamic ht, List.filter_append,
      openDynamic, ht]
    by_cases hq : p.acceptsArgs x.2.args.length func
    · have hnew : func ∉ addresses.filter (p.acceptsArgs x.2.args.length) :=
        fun hf => h (List.mem_filter.mp hf).1
      rw [List.filter_cons_of_pos hq, List.filter_nil, eraseDups_concat_of_notMem hnew]
      simp [Option.filter_some, hq]
    · rw [List.filter_cons_of_neg hq, List.filter_nil, List.append_nil]
      simp [Option.filter_some, hq]

end Growth

/-! ## The invariant -/

/-- The state is what is left of a list of findings, for an analysis that starts at `roots`. -/
structure Remembers (p : Program) (roots : List FuncId) (fs : List Finding) (s : State) : Prop where
  allocated : s.allocated = (typesIn fs).eraseDups
  taken : s.taken = (addressesIn fs).eraseDups
  invokes : s.invokes = (sitesIn fs).filterMap (openInvoke p (typesIn fs))
  dynamics : s.dynamics = (sitesIn fs).filterMap openDynamic
  edges : s.graph.edges.Perm ((sitesIn fs).flatMap (edgesAmong p (typesIn fs) (addressesIn fs)))
  nodup : s.graph.nodes.Nodup
  mem_nodes : ∀ f, f ∈ s.graph.nodes ↔ f ∈ roots ∨ f ∈ s.graph.edges.map CallEdge.callee
  callers : ∀ x ∈ sitesIn fs, x.1 ∈ s.graph.nodes

/-- The functions that `t` has reached and `s` has not are the last ones in its queue. -/
def Grows (s t : State) : Prop :=
  ∃ new, t.graph.nodes = s.graph.nodes ++ new ∧ t.queue = s.queue ++ new

theorem Grows.refl (s : State) : Grows s s := ⟨[], by simp, by simp⟩

theorem Grows.trans {s t u : State} (h₁ : Grows s t) (h₂ : Grows t u) : Grows s u := by
  obtain ⟨new₁, hn₁, hq₁⟩ := h₁
  obtain ⟨new₂, hn₂, hq₂⟩ := h₂
  exact ⟨new₁ ++ new₂, by rw [hn₂, hn₁, List.append_assoc], by rw [hq₂, hq₁, List.append_assoc]⟩

theorem Grows.mem_nodes {s t : State} (h : Grows s t) {f : FuncId} (hf : f ∈ s.graph.nodes) :
    f ∈ t.graph.nodes := by
  obtain ⟨new, hn, _⟩ := h
  rw [hn]
  exact List.mem_append_left _ hf

section Step

variable {p : Program} {roots : List FuncId} {fs : List Finding} {s : State}

/-- The callers of the edges of known sites are reached. -/
theorem Remembers.caller_mem (hr : Remembers p roots fs s) {x : FuncId × CallSite}
    (hx : x ∈ sitesIn fs) (types : List TypeId) (addresses : List FuncId) {e : CallEdge}
    (he : e ∈ edgesAmong p types addresses x) : e.caller ∈ s.graph.nodes := by
  obtain ⟨callee, _, rfl⟩ := List.mem_map.mp he
  exact hr.callers x hx

/-- The nodes after some calls: still each once, and still the roots and all callees. -/
theorem Remembers.nodes_foldl_call (hr : Remembers p roots fs s) (s₁ : State)
    (edges : List CallEdge) {t : State} (hg : s₁.graph = s.graph) (hq : s₁.queue = s.queue)
    (hcaller : ∀ e ∈ edges, e.caller ∈ s.graph.nodes) (ht : edges.foldl State.call s₁ = t) :
    Grows s t ∧ t.graph.edges = s.graph.edges ++ edges ∧ t.graph.nodes.Nodup ∧
      (∀ f, f ∈ t.graph.nodes ↔ f ∈ roots ∨ f ∈ t.graph.edges.map CallEdge.callee) ∧
      t.allocated = s₁.allocated ∧ t.taken = s₁.taken ∧ t.invokes = s₁.invokes ∧
      t.dynamics = s₁.dynamics := by
  obtain ⟨new, heq, hnodup, hmem⟩ := foldl_call_eq edges s₁ (by rw [hg]; exact hcaller)
  rw [ht] at heq
  subst heq
  simp only [hg] at hnodup hmem ⊢
  refine ⟨⟨new, rfl, by rw [hq]⟩, trivial, hnodup hr.nodup, fun f => ?_, trivial, trivial, trivial,
    trivial⟩
  rw [hmem f, hr.mem_nodes f, List.map_append, List.mem_append, or_assoc]

/-- A type or an address is found: no site is new, and every site gets the edges `new` to the
targets that it has not had before. -/
theorem Remembers.extend (hr : Remembers p roots fs s) (fs' : List Finding) (s₁ : State)
    (new : FuncId × CallSite → List CallEdge) (hgraph : s₁.graph = s.graph)
    (hqueue : s₁.queue = s.queue) (hsites : sitesIn fs' = sitesIn fs)
    (hallocated : s₁.allocated = (typesIn fs').eraseDups)
    (htaken : s₁.taken = (addressesIn fs').eraseDups)
    (hinvokes : s₁.invokes = (sitesIn fs).filterMap (openInvoke p (typesIn fs')))
    (hdynamics : s₁.dynamics = s.dynamics)
    (hedges : ∀ x, edgesAmong p (typesIn fs') (addressesIn fs') x
      = edgesAmong p (typesIn fs) (addressesIn fs) x ++ new x) :
    Remembers p roots fs' (((sitesIn fs).flatMap new).foldl State.call s₁) ∧
      Grows s (((sitesIn fs).flatMap new).foldl State.call s₁) := by
  have hcaller : ∀ e ∈ (sitesIn fs).flatMap new, e.caller ∈ s.graph.nodes := by
    intro e he
    obtain ⟨x, hx, he⟩ := List.mem_flatMap.mp he
    refine hr.caller_mem hx (typesIn fs') (addressesIn fs') ?_
    rw [hedges]
    exact List.mem_append_right _ he
  obtain ⟨hgrows, hall, hnodup, hmem, ha, ht, hi, hd⟩ :=
    hr.nodes_foldl_call s₁ _ hgraph hqueue hcaller rfl
  refine ⟨⟨ha.trans hallocated, ht.trans htaken, ?_, ?_, ?_, hnodup, hmem, ?_⟩, hgrows⟩
  · rw [hi, hinvokes, hsites]
  · rw [hd, hdynamics, hr.dynamics, hsites]
  · rw [hall, hsites, funext hedges]
    exact (hr.edges.append_right _).trans (List.flatMap_append_perm _ _ _)
  · rw [hsites]
    exact fun x hx => hgrows.mem_nodes (hr.callers x hx)

theorem Remembers.allocate (hr : Remembers p roots fs s) (ty : TypeId) :
    Remembers p roots (fs ++ [.type ty]) (allocate p s ty) ∧ Grows s (allocate p s ty) := by
  have htypes : typesIn (fs ++ [.type ty]) = typesIn fs ++ [ty] := by simp [typesIn]
  have haddr : addressesIn (fs ++ [.type ty]) = addressesIn fs := by simp [addressesIn]
  have hsites : sitesIn (fs ++ [.type ty]) = sitesIn fs := by simp [sitesIn]
  have hknown : s.allocated.contains ty = true ↔ ty ∈ typesIn fs := by
    rw [hr.allocated, List.contains_iff_mem, List.mem_eraseDups]
  by_cases h : ty ∈ typesIn fs
  · rw [Rapid.allocate, if_pos (hknown.mpr h)]
    -- nothing is linked, so every open call and every edge is the one it was
    have hextend := hr.extend (fs ++ [.type ty]) s (fun _ => []) rfl rfl hsites ?_ ?_ ?_ rfl ?_
    · rwa [List.flatMap_eq_nil_iff.mpr fun _ _ => rfl] at hextend
    · rw [htypes, eraseDups_concat_of_mem h, hr.allocated]
    · rw [haddr, hr.taken]
    · rw [htypes, hr.invokes]
      refine List.filterMap_congr fun x _ => ?_
      rw [openInvoke_concat]
      cases ho : openInvoke p (typesIn fs) x with
      | none => rfl
      | some o => rw [Option.map_some, link_openInvoke_of_mem ho h]
    · intro x
      rw [htypes, haddr, edgesAmong_concat_type]
      cases ho : openInvoke p (typesIn fs) x with
      | none => simp
      | some o => simp [link_openInvoke_of_mem ho h]
  · rw [Rapid.allocate, if_neg (hknown.not.mpr h)]
    have hextend := hr.extend (fs ++ [.type ty])
      { s with
        allocated := s.allocated ++ [ty]
        invokes := (s.invokes.map (OpenInvoke.link p ty)).map Prod.fst }
      (fun x => ((openInvoke p (typesIn fs) x).bind fun o => (OpenInvoke.link p ty o).2).toList)
      rfl rfl hsites ?_ ?_ ?_ rfl ?_
    · have hnew : (s.invokes.map (OpenInvoke.link p ty)).filterMap Prod.snd
          = (sitesIn fs).flatMap fun x =>
            ((openInvoke p (typesIn fs) x).bind fun o => (OpenInvoke.link p ty o).2).toList := by
        rw [hr.invokes, List.filterMap_map, List.filterMap_filterMap,
          List.filterMap_eq_flatMap_toList]
        rfl
      rwa [← hnew] at hextend
    · rw [htypes, eraseDups_concat_of_notMem h, hr.allocated]
    · rw [haddr, hr.taken]
    · rw [htypes, funext openInvoke_concat, hr.invokes, List.map_map, List.map_filterMap]
      rfl
    · intro x
      rw [htypes, haddr, edgesAmong_concat_type]

theorem Remembers.take (hr : Remembers p roots fs s) (func : FuncId) :
    Remembers p roots (fs ++ [.address func]) (take p s func) ∧ Grows s (take p s func) := by
  have htypes : typesIn (fs ++ [.address func]) = typesIn fs := by simp [typesIn]
  have haddr : addressesIn (fs ++ [.address func]) = addressesIn fs ++ [func] := by
    simp [addressesIn]
  have hsites : sitesIn (fs ++ [.address func]) = sitesIn fs := by simp [sitesIn]
  have hknown : s.taken.contains func = true ↔ func ∈ addressesIn fs := by
    rw [hr.taken, List.contains_iff_mem, List.mem_eraseDups]
  by_cases h : func ∈ addressesIn fs
  · rw [Rapid.take, if_pos (hknown.mpr h)]
    have hextend := hr.extend (fs ++ [.address func]) s (fun _ => []) rfl rfl hsites ?_ ?_ ?_ rfl ?_
    · rwa [List.flatMap_eq_nil_iff.mpr fun _ _ => rfl] at hextend
    · rw [htypes, hr.allocated]
    · rw [haddr, eraseDups_concat_of_mem h, hr.taken]
    · rw [htypes, hr.invokes]
    · intro x
      rw [htypes, haddr, edgesAmong_concat_address_of_mem h, List.append_nil]
  · rw [Rapid.take, if_neg (hknown.not.mpr h)]
    have hextend := hr.extend (fs ++ [.address func]) { s with taken := s.taken ++ [func] }
      (fun x => (((openDynamic x).filter fun o => p.acceptsArgs o.args func).map fun o =>
        (⟨o.caller, func, o.line⟩ : CallEdge)).toList) rfl rfl hsites ?_ ?_ ?_ rfl ?_
    · have hnew : ((s.dynamics.filter fun site => p.acceptsArgs site.args func).map fun site =>
          (⟨site.caller, func, site.line⟩ : CallEdge)) = (sitesIn fs).flatMap fun x =>
            (((openDynamic x).filter fun o => p.acceptsArgs o.args func).map fun o =>
              (⟨o.caller, func, o.line⟩ : CallEdge)).toList := by
        rw [hr.dynamics, List.filter_filterMap, List.map_filterMap,
          List.filterMap_eq_flatMap_toList]
      rwa [← hnew] at hextend
    · rw [htypes, hr.allocated]
    · rw [haddr, eraseDups_concat_of_notMem h, hr.taken]
    · rw [htypes, hr.invokes]
    · intro x
      rw [htypes, haddr, edgesAmong_concat_address h]

/-- The three kinds of sites add the same edges: those to the targets so far. -/
theorem Remembers.addSite_eq (hr : Remembers p roots fs s) (x : FuncId × CallSite) :
    addSite p x.1 s x.2 =
      let t := (edgesAmong p (typesIn fs) (addressesIn fs) x).foldl State.call s
      { t with
        invokes := t.invokes ++ (openInvoke p (typesIn fs) x).toList
        dynamics := t.dynamics ++ (openDynamic x).toList } := by
  -- the lists in the state have no repetitions, which the lists of findings may have
  cases ht : x.2.target with
  | static callee =>
    simp [addSite, edgesAmong, Program.siteEdges, Program.targetsAmong, openInvoke, openDynamic, ht]
  | invoke iface method =>
    have htargets : ∀ addresses, p.targetsAmong (typesIn fs) addresses x.2
        = (s.allocated.filterMap (dispatch p iface method)).eraseDups := by
      intro addresses
      rw [targetsAmong_invoke ht, hr.allocated, eraseDups_filterMap_eraseDups]
    simp [addSite, edgesAmong, Program.siteEdges, htargets, openInvoke, openDynamic, ht]
  | dynamic callee =>
    have htargets : p.targetsAmong (typesIn fs) (addressesIn fs) x.2
        = s.taken.filter (p.acceptsArgs x.2.args.length) := by
      rw [targetsAmong_dynamic ht, hr.taken, filter_eraseDups]
    simp [addSite, edgesAmong, Program.siteEdges, htargets, openInvoke, openDynamic, ht]

theorem Remembers.addSite (hr : Remembers p roots fs s) {caller : FuncId} (site : CallSite)
    (hcaller : caller ∈ s.graph.nodes) :
    Remembers p roots (fs ++ [.site caller site]) (addSite p caller s site) ∧
      Grows s (addSite p caller s site) := by
  have htypes : typesIn (fs ++ [.site caller site]) = typesIn fs := by simp [typesIn]
  have haddr : addressesIn (fs ++ [.site caller site]) = addressesIn fs := by simp [addressesIn]
  have hsites : sitesIn (fs ++ [.site caller site]) = sitesIn fs ++ [(caller, site)] := by
    simp [sitesIn]
  obtain ⟨hgrows, hedges, hnodup, hmem, ha, ht, hi, hd⟩ :=
    hr.nodes_foldl_call s (edgesAmong p (typesIn fs) (addressesIn fs) (caller, site)) rfl rfl
      (fun e he => by obtain ⟨callee, _, rfl⟩ := List.mem_map.mp he; exact hcaller) rfl
  rw [hr.addSite_eq (caller, site)]
  refine ⟨⟨?_, ?_, ?_, ?_, ?_, hnodup, hmem, ?_⟩, hgrows⟩
  · rw [htypes, ← hr.allocated, ← ha]
  · rw [haddr, ← hr.taken, ← ht]
  · simp only [hi, htypes, hsites, hr.invokes, List.filterMap_append, List.filterMap_cons,
      List.filterMap_nil]
    cases openInvoke p (typesIn fs) (caller, site) <;> rfl
  · simp only [hd, hsites, hr.dynamics, List.filterMap_append, List.filterMap_cons,
      List.filterMap_nil]
    cases openDynamic (caller, site) <;> rfl
  · simp only [hedges, hsites, htypes, haddr, List.flatMap_append, List.flatMap_cons,
      List.flatMap_nil, List.append_nil]
    exact hr.edges.append_right _
  · rw [hsites]
    intro x hx
    rcases List.mem_append.mp hx with hx | hx
    · exact hgrows.mem_nodes (hr.callers x hx)
    · rw [List.mem_singleton.mp hx]
      exact hgrows.mem_nodes hcaller

/-- **One more finding keeps the invariant.** -/
theorem Remembers.note (hr : Remembers p roots fs s) {f : Finding}
    (hf : ∀ caller site, f = .site caller site → caller ∈ s.graph.nodes) :
    Remembers p roots (fs ++ [f]) (note p s f) ∧ Grows s (note p s f) := by
  cases f with
  | type ty => exact hr.allocate ty
  | address func => exact hr.take func
  | site caller site => exact hr.addSite site (hf caller site rfl)

theorem Remembers.foldl_note (hr : Remembers p roots fs s) (new : List Finding)
    (hnew : ∀ caller site, .site caller site ∈ new → caller ∈ s.graph.nodes) :
    Remembers p roots (fs ++ new) (new.foldl (Rapid.note p) s) ∧
      Grows s (new.foldl (Rapid.note p) s) := by
  induction new generalizing fs s with
  | nil =>
    rw [List.append_nil]
    exact ⟨hr, Grows.refl s⟩
  | cons f rest ih =>
    obtain ⟨hr', hgrows⟩ := hr.note (f := f) fun caller site hf =>
      hnew caller site (hf ▸ List.mem_cons_self)
    obtain ⟨hr'', hgrows'⟩ := ih hr' fun caller site hf =>
      hgrows.mem_nodes (hnew caller site (List.mem_cons_of_mem _ hf))
    rw [List.append_assoc, List.singleton_append] at hr''
    exact ⟨hr'', hgrows.trans hgrows'⟩

end Step

end Rapid

end CallAtlas
