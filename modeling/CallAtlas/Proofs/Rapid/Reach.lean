import CallAtlas.Proofs.Rapid.History
import CallAtlas.Proofs.WellFormed
import Mathlib.Data.List.Perm.Subperm
import Mathlib.Order.Bounds.Basic

/-!
# What the rapid analysis reaches and links

The analysis takes functions from the front of its queue and visits each in a fixed order: its
types, its addresses, its sites. Nothing that it answers depends on that. An *exploration*
(`Explores`) takes any function from the queue and its findings in any order; every exploration that
has emptied its queue reaches the same functions and has the same edges, up to their order, and none
visits more functions than there are.

* `rapidGraph_nodes_isLeast`: the functions reached are the least set that holds the main functions
  and is closed under the calls of its own code.
* `rapidGraph_edges_perm`: there is one edge for every site of a reached function and every
  target of the site.

Both rest on `Explores.remembers`, which carries the invariant of `Proofs/Rapid/History.lean` along
an exploration: what has been found is what the visited functions contain, and the functions reached
are those visited and those in the queue.
-/

set_option autoImplicit false

namespace CallAtlas

namespace Rapid

/-! ## Explorations -/

/-- Visits of the functions in the list lead from `start` to a state, whichever function is taken
from the queue and in whichever order its findings come. -/
inductive Explores (p : Program) (start : State) : List FuncId → State → Prop where
  | start : Explores p start [] start
  | visit {visited : List FuncId} {s : State} {before after : List FuncId} {func : FuncId}
      {fs : List Finding} (h : Explores p start visited s) (hq : s.queue = before ++ func :: after)
      (hfs : fs.Perm (findingsOf p func)) :
      Explores p start (visited ++ [func])
        (fs.foldl (note p) { s with queue := before ++ after })

theorem startAt_eq (roots : List FuncId) :
    startAt roots = { graph := ⟨roots.eraseDups, []⟩, queue := roots.eraseDups } := by
  induction roots using List.reverseRecOn with
  | nil => rfl
  | append_singleton roots f ih =>
    have hstep : startAt (roots ++ [f]) = (startAt roots).reach f := by
      simp only [startAt, List.foldl_append, List.foldl_cons, List.foldl_nil]
    rw [hstep, ih, State.reach]
    by_cases h : f ∈ roots
    · rw [eraseDups_concat_of_mem h, if_pos (CallGraph.contains_iff.mpr (List.mem_eraseDups.mpr h))]
    · have hn : f ∉ roots.eraseDups := fun hf => h (List.mem_eraseDups.mp hf)
      rw [eraseDups_concat_of_notMem h, if_neg (fun hc => hn (CallGraph.contains_iff.mp hc)),
        CallGraph.addNode_of_notMem hn]

theorem remembers_startAt (p : Program) (roots : List FuncId) :
    Remembers p roots [] (startAt roots) := by
  rw [startAt_eq]
  exact ⟨rfl, rfl, rfl, rfl, List.Perm.refl _, nodup_eraseDups roots,
    fun f => by simp, fun x hx => by
    simp [sitesIn] at hx⟩

/-- The invariant does not speak of the queue. -/
theorem Remembers.withQueue {p : Program} {roots : List FuncId} {fs : List Finding} {s : State}
    (hr : Remembers p roots fs s) (queue : List FuncId) :
    Remembers p roots fs { s with queue } :=
  ⟨hr.allocated, hr.taken, hr.invokes, hr.dynamics, hr.edges, hr.nodup, hr.mem_nodes, hr.callers⟩

section Explorations

variable {p : Program} {roots visited : List FuncId} {s : State}

theorem caller_eq_of_mem_findingsOf {func caller : FuncId} {site : CallSite}
    (h : .site caller site ∈ findingsOf p func) :
    caller = func ∧ site ∈ (p.factsOf func).sites := by
  simpa [findingsOf, eq_comm, and_comm] using h

/-- **The invariant of an exploration.** What has been found is what the visited functions contain,
and the functions reached are those visited and those in the queue. -/
theorem Explores.remembers (h : Explores p (startAt roots) visited s) :
    ∃ fs, Remembers p roots fs s ∧ fs.Perm (visited.flatMap (findingsOf p)) ∧
      s.graph.nodes.Perm (visited ++ s.queue) := by
  induction h with
  | start => exact ⟨[], remembers_startAt p roots, List.Perm.refl _, by rw [startAt_eq]; simp⟩
  | @visit visited s before after func fs h hq hfs ih =>
    obtain ⟨old, hr, hold, hnodes⟩ := ih
    have hmid : (visited ++ s.queue).Perm (visited ++ [func] ++ (before ++ after)) := by
      rw [hq, List.append_assoc]
      exact List.Perm.append_left _ List.perm_middle
    have hfunc : func ∈ s.graph.nodes := by
      rw [hnodes.mem_iff, hq]
      simp
    obtain ⟨hr', new, hn, hqueue⟩ :=
      (hr.withQueue (before ++ after)).foldl_note fs fun caller site hf => by
        rw [(caller_eq_of_mem_findingsOf (hfs.mem_iff.mp hf)).1]
        exact hfunc
    refine ⟨old ++ fs, hr', ?_, ?_⟩
    · rw [List.flatMap_append]
      exact hold.append (by simpa using hfs)
    · rw [hn, hqueue, ← List.append_assoc]
      exact (hnodes.trans hmid).append_right new

/-! ## Edges and nodes in terms of the functions visited -/

theorem typesIn_flatMap (fns : List FuncId) :
    typesIn (fns.flatMap (findingsOf p)) = fns.flatMap fun f => (p.factsOf f).allocations := by
  simp [typesIn, findingsOf, List.filterMap_flatMap, List.filterMap_append, List.filterMap_map]

theorem addressesIn_flatMap (fns : List FuncId) :
    addressesIn (fns.flatMap (findingsOf p)) = fns.flatMap fun f => (p.factsOf f).addressTaken := by
  simp [addressesIn, findingsOf, List.filterMap_flatMap, List.filterMap_append, List.filterMap_map]

theorem sitesIn_flatMap (fns : List FuncId) :
    sitesIn (fns.flatMap (findingsOf p)) = fns.flatMap fun f =>
      (p.factsOf f).sites.map fun site => (f, site) := by
  simp [sitesIn, findingsOf, List.filterMap_flatMap, List.filterMap_append, List.filterMap_map]

theorem mem_targetsAmong {types : List TypeId} {addresses : List FuncId} {site : CallSite}
    {callee : FuncId} : callee ∈ p.targetsAmong types addresses site ↔
      site.target = .static callee ∨
      (∃ iface method, site.target = .invoke iface method ∧ ∃ ty ∈ types,
        p.decls.implements ty iface = true ∧ p.decls.methodOf ty method = some callee) ∨
      ∃ origin, site.target = .dynamic origin ∧ callee ∈ addresses ∧
        p.acceptsArgs site.args.length callee = true := by
  unfold Program.targetsAmong
  cases site.target with
  | static target =>
    rw [List.mem_singleton, eq_comm]
    simp
  | invoke iface method => simp [and_assoc]
  | dynamic origin => simp

/-- Only which types and addresses there are decides the targets, up to their order. -/
theorem targetsAmong_perm {types types' : List TypeId} {addresses addresses' : List FuncId}
    (ht : ∀ ty, ty ∈ types ↔ ty ∈ types') (ha : ∀ f, f ∈ addresses ↔ f ∈ addresses')
    (site : CallSite) :
    (p.targetsAmong types addresses site).Perm (p.targetsAmong types' addresses' site) := by
  unfold Program.targetsAmong
  cases site.target with
  | static callee => exact List.Perm.refl _
  | invoke iface method => exact eraseDups_perm fun f => by simp [ht]
  | dynamic origin => exact eraseDups_perm fun f => by simp [ha]

/-- The edges of the sites of some functions to their targets among what other functions contain. -/
def linksFrom (p : Program) (callers sources : List FuncId) : List CallEdge :=
  callers.flatMap fun f => (p.factsOf f).sites.flatMap (Program.siteEdges (p.targetsAmong
    (sources.flatMap fun g => (p.factsOf g).allocations)
    (sources.flatMap fun g => (p.factsOf g).addressTaken)) f)

theorem linksFrom_perm {fns fns' : List FuncId} (h : fns.Perm fns') :
    (linksFrom p fns fns).Perm (linksFrom p fns' fns') := by
  refine List.Perm.flatMap h fun f _ => List.Perm.flatMap_left _ fun site _ => ?_
  refine (targetsAmong_perm (fun ty => ?_) (fun g => ?_) site).map _
  · exact (h.flatMap_right _).mem_iff
  · exact (h.flatMap_right _).mem_iff

theorem Explores.edges_perm (h : Explores p (startAt roots) visited s) :
    s.graph.edges.Perm (linksFrom p visited visited) := by
  obtain ⟨fs, hr, hfs, _⟩ := h.remembers
  have htypes : ∀ ty, ty ∈ typesIn fs ↔ ty ∈ visited.flatMap fun f =>
      (p.factsOf f).allocations := by
    intro ty
    rw [← typesIn_flatMap]
    exact (hfs.filterMap _).mem_iff
  have haddr : ∀ g, g ∈ addressesIn fs ↔
      g ∈ visited.flatMap fun f => (p.factsOf f).addressTaken := by
    intro g
    rw [← addressesIn_flatMap]
    exact (hfs.filterMap _).mem_iff
  have hsites : (sitesIn fs).Perm (visited.flatMap fun f =>
      (p.factsOf f).sites.map fun site => (f, site)) := by
    rw [← sitesIn_flatMap]
    exact hfs.filterMap _
  refine hr.edges.trans ((List.Perm.flatMap hsites fun x _ =>
    (targetsAmong_perm htypes haddr x.2).map _).trans ?_)
  rw [linksFrom, List.flatMap_assoc]
  refine List.Perm.flatMap_left _ fun f _ => ?_
  rw [List.flatMap_map]
  rfl

theorem Explores.mem_nodes (h : Explores p (startAt roots) visited s) {f : FuncId} :
    f ∈ s.graph.nodes ↔ f ∈ roots ∨ f ∈ (linksFrom p visited visited).map CallEdge.callee := by
  obtain ⟨fs, hr, _, _⟩ := h.remembers
  rw [hr.mem_nodes f, (h.edges_perm.map CallEdge.callee).mem_iff]

theorem mem_callees_linksFrom {callers sources : List FuncId} {f : FuncId} :
    f ∈ (linksFrom p callers sources).map CallEdge.callee ↔
      ∃ caller ∈ callers, ∃ site ∈ (p.factsOf caller).sites,
        f ∈ p.targetsAmong (sources.flatMap fun g => (p.factsOf g).allocations)
          (sources.flatMap fun g => (p.factsOf g).addressTaken) site := by
  simp [linksFrom, Program.siteEdges]

/-! ## The least closed set -/

/-- A set of functions that holds the main functions and every function that its own code calls,
where interface calls and calls of function values reach the types and addresses of its own code. -/
structure Closed (p : Program) (R : Set FuncId) : Prop where
  main : ∀ f ∈ p.mainFunctions, f ∈ R
  static : ∀ f ∈ R, ∀ site ∈ (p.factsOf f).sites, ∀ callee,
    site.target = .static callee → callee ∈ R
  invoke : ∀ f ∈ R, ∀ site ∈ (p.factsOf f).sites, ∀ iface method,
    site.target = .invoke iface method →
    ∀ g ∈ R, ∀ ty ∈ (p.factsOf g).allocations, p.decls.implements ty iface = true →
    ∀ callee, p.decls.methodOf ty method = some callee → callee ∈ R
  dynamic : ∀ f ∈ R, ∀ site ∈ (p.factsOf f).sites, ∀ origin, site.target = .dynamic origin →
    ∀ g ∈ R, ∀ callee ∈ (p.factsOf g).addressTaken,
    p.acceptsArgs site.args.length callee = true → callee ∈ R

/-- A closed set holds the targets of its sites among what its functions contain. -/
theorem Closed.targets_mem {R : Set FuncId} (hR : Closed p R) {fns : List FuncId}
    (hfns : ∀ f ∈ fns, f ∈ R) {f : FuncId}
    (hf : f ∈ (linksFrom p fns fns).map CallEdge.callee) : f ∈ R := by
  obtain ⟨caller, hcaller, site, hsite, hf⟩ := mem_callees_linksFrom.mp hf
  have hc := hfns caller hcaller
  rcases mem_targetsAmong.mp hf with ht | ⟨iface, method, ht, ty, hty, himp, hm⟩ | ⟨o, ht, ha, hacc⟩
  · exact hR.static caller hc site hsite f ht
  · obtain ⟨g, hg, hty⟩ := List.mem_flatMap.mp hty
    exact hR.invoke caller hc site hsite iface method ht g (hfns g hg) ty hty himp f hm
  · obtain ⟨g, hg, ha⟩ := List.mem_flatMap.mp ha
    exact hR.dynamic caller hc site hsite o ht g (hfns g hg) f ha hacc

/-- Nothing outside a closed set is ever reached. -/
theorem Explores.nodes_subset {R : Set FuncId} (hR : Closed p R)
    (hroots : ∀ f ∈ roots, f ∈ p.mainFunctions) (h : Explores p (startAt roots) visited s) :
    ∀ f ∈ s.graph.nodes, f ∈ R := by
  -- it is enough that only functions of `R` are visited, and a function is visited from the queue
  suffices hvisited : ∀ f ∈ visited, f ∈ R by
    intro f hf
    rcases h.mem_nodes.mp hf with hf | hf
    · exact hR.main f (hroots f hf)
    · exact hR.targets_mem hvisited hf
  induction h with
  | start => intro f hf; exact absurd hf (by simp)
  | @visit visited s before after func fs h hq hfs ih =>
    intro f hf
    rcases List.mem_append.mp hf with hf | hf
    · exact ih f hf
    · have hfunc : func ∈ s.graph.nodes := by
        obtain ⟨_, _, _, hnodes⟩ := h.remembers
        rw [hnodes.mem_iff, hq]
        simp
      rw [List.mem_singleton.mp hf]
      rcases h.mem_nodes.mp hfunc with hm | hm
      · exact hR.main func (hroots func hm)
      · exact hR.targets_mem ih hm

/-- With an empty queue, all that was reached was visited. -/
theorem Explores.nodes_perm (h : Explores p (startAt roots) visited s) (hq : s.queue = []) :
    s.graph.nodes.Perm visited := by
  obtain ⟨_, _, _, hnodes⟩ := h.remembers
  rwa [hq, List.append_nil] at hnodes

/-- An exploration that has emptied its queue has reached a closed set. -/
theorem Explores.closed (hroots : ∀ f ∈ p.mainFunctions, f ∈ roots)
    (h : Explores p (startAt roots) visited s) (hq : s.queue = []) :
    Closed p {f | f ∈ s.graph.nodes} := by
  have hmem : ∀ {f}, f ∈ s.graph.nodes ↔ f ∈ visited := (h.nodes_perm hq).mem_iff
  -- every rule adds a target of a visited site, and the callee of every edge is a node
  have htarget : ∀ caller ∈ s.graph.nodes, ∀ site ∈ (p.factsOf caller).sites, ∀ f,
      f ∈ p.targetsAmong (visited.flatMap fun g => (p.factsOf g).allocations)
        (visited.flatMap fun g => (p.factsOf g).addressTaken) site → f ∈ s.graph.nodes :=
    fun caller hc site hs f hf =>
      h.mem_nodes.mpr (Or.inr (mem_callees_linksFrom.mpr ⟨caller, hmem.mp hc, site, hs, hf⟩))
  refine ⟨fun f hf => h.mem_nodes.mpr (Or.inl (hroots f hf)), ?_, ?_, ?_⟩
  · intro f hf site hs callee ht
    exact htarget f hf site hs callee (mem_targetsAmong.mpr (Or.inl ht))
  · intro f hf site hs iface method ht g hg ty hty himp callee hm
    have hty' : ty ∈ visited.flatMap fun g => (p.factsOf g).allocations :=
      List.mem_flatMap.mpr ⟨g, hmem.mp hg, hty⟩
    exact htarget f hf site hs callee
      (mem_targetsAmong.mpr (Or.inr (Or.inl ⟨iface, method, ht, ty, hty', himp, hm⟩)))
  · intro f hf site hs origin ht g hg callee ha hacc
    have ha' : callee ∈ visited.flatMap fun g => (p.factsOf g).addressTaken :=
      List.mem_flatMap.mpr ⟨g, hmem.mp hg, ha⟩
    exact htarget f hf site hs callee
      (mem_targetsAmong.mpr (Or.inr (Or.inr ⟨origin, ht, ha', hacc⟩)))

theorem Explores.isLeast_closed (hroots : ∀ f, f ∈ roots ↔ f ∈ p.mainFunctions)
    (h : Explores p (startAt roots) visited s) (hq : s.queue = []) :
    IsLeast {R | Closed p R} {f | f ∈ s.graph.nodes} :=
  ⟨h.closed (fun f => (hroots f).mpr) hq, fun _ hR f hf =>
    h.nodes_subset hR (fun f => (hroots f).mp) f hf⟩

/-! ## Termination -/

/-- All functions that are reached exist. -/
theorem Explores.nodes_lt (hp : p.CalleesExist) (hroots : ∀ f ∈ roots, f ∈ p.mainFunctions)
    (h : Explores p (startAt roots) visited s) : ∀ f ∈ s.graph.nodes, f < p.functions.length := by
  refine h.nodes_subset (R := {f | f < p.functions.length}) ⟨hp.main, ?_, ?_, ?_⟩ hroots
  · intro f _ site hs callee ht
    exact hp.static_lt hs ht
  · intro f _ site _ iface method _ g _ ty _ _ callee hm
    obtain ⟨t, ht, m, hdecl, rfl⟩ := Universe.exists_method_of_methodOf hm
    exact hp.method t ht m hdecl
  · intro f _ site _ origin _ g _ callee _ hacc
    exact Program.acceptsArgs_lt hacc

/-- The functions visited and those waiting are together no more than there are. -/
theorem Explores.length_le (hp : p.CalleesExist) (hroots : ∀ f ∈ roots, f ∈ p.mainFunctions)
    (h : Explores p (startAt roots) visited s) :
    visited.length + s.queue.length ≤ p.functions.length := by
  obtain ⟨_, hr, _, hnodes⟩ := h.remembers
  have hsub : s.graph.nodes ⊆ List.range p.functions.length :=
    fun f hf => List.mem_range.mpr (h.nodes_lt hp hroots f hf)
  have hlen := (List.subperm_of_subset hr.nodup hsub).length_le
  rwa [hnodes.length_eq, List.length_append, List.length_range] at hlen

/-- `run` is an exploration, and it stops early only because nothing is left. -/
theorem Explores.run {start : State} (h : Explores p start visited s) (fuel : Nat) :
    ∃ visited', Explores p start visited' (run p fuel s) ∧
      ((run p fuel s).queue = [] ∨ visited'.length = visited.length + fuel) := by
  induction fuel generalizing visited s with
  | zero => exact ⟨visited, h, Or.inr rfl⟩
  | succ fuel ih =>
    cases hq : s.queue with
    | nil => exact ⟨visited, by simpa [Rapid.run, hq] using h, Or.inl (by simp [Rapid.run, hq])⟩
    | cons func queue =>
      have hvisit : Explores p start (visited ++ [func]) (Rapid.visit p { s with queue } func) := by
        rw [visit_eq_foldl_note]
        exact @Explores.visit p start visited s [] queue func _ h hq (List.Perm.refl _)
      obtain ⟨visited', hrun, hend⟩ := ih hvisit
      simp only [Rapid.run, hq]
      refine ⟨visited', hrun, hend.imp_right fun hlen => ?_⟩
      rw [hlen, List.length_append, List.length_singleton]
      omega

/-- With one visit for every function the queue is emptied. -/
theorem exists_explores_run (hp : p.CalleesExist) (roots : List FuncId)
    (hroots : ∀ f ∈ roots, f ∈ p.mainFunctions) :
    ∃ visited, Explores p (startAt roots) visited (run p p.functions.length (startAt roots)) ∧
      (run p p.functions.length (startAt roots)).queue = [] := by
  obtain ⟨visited, h, hend⟩ := (@Explores.start p (startAt roots)).run p.functions.length
  -- had the visits run out, as many functions would have been visited as there are, and none waits
  refine ⟨visited, h, hend.elim id fun hlen => ?_⟩
  have hle := h.length_le hp hroots
  rw [hlen, List.length_nil] at hle
  exact List.length_eq_zero_iff.mp (by omega)

end Explorations

/-! ## A program in which everything is found late

`main` calls a function value before `call` takes an address, and `call` makes an interface call
before `done` allocates a second type, which shares the method of the first by embedding it. -/

/-- The program: `main`, `call`, the method of `A`, `done`, and a function that nothing reaches. -/
def sample : Program where
  packages := [{ path := "m", name := "main", funcs := ⟨[("main", 0)]⟩ }]
  functions := [
    { key := "m.main", name := "main", package := some "m", kind := .function },
    { id := 1, key := "m.call", name := "call", package := some "m", kind := .function },
    { id := 2, key := "(m.A).Handle", name := "(A).Handle", package := some "m", kind := .method },
    { id := 3, key := "m.done", name := "done", package := some "m", kind := .function },
    { id := 4, key := "m.unused", name := "unused", package := some "m", kind := .function }]
  decls := { types := [
    { pkg := "m", name := "Handler", kind := .interface [⟨"Handle", 0, []⟩] [] },
    { pkg := "m", name := "A", kind := .struct [], methods := ⟨[("Handle", ⟨2, false⟩)]⟩ },
    { pkg := "m", name := "B", kind := .struct [⟨none, .named "m" "A"⟩] }] }
  facts := [
    { sites := [⟨3, .dynamic .unseen, none, []⟩, ⟨4, .static 1, none, []⟩], allocations := [1] },
    { sites := [⟨7, .invoke 0 "Handle", none, []⟩], addressTaken := [3] },
    {},
    { allocations := [2] },
    { sites := [⟨12, .static 0, none, []⟩] }]

/-- Its rapid graph. -/
def sampleGraph : CallGraph := ⟨[0, 1, 3, 2], [⟨0, 1, 4⟩, ⟨0, 3, 3⟩, ⟨1, 2, 7⟩]⟩

theorem rapidGraph?_sample : sample.rapidGraph? = some sampleGraph := by decide

end Rapid

namespace Program

open Rapid

theorem rapidGraph?_eq {p : Program} (hmain : p.mainFunctions ≠ []) :
    p.rapidGraph? = some (Rapid.run p p.functions.length (startAt p.mainFunctions)).graph := by
  unfold rapidGraph?
  split
  · rename_i h
    exact absurd h hmain
  · rfl

/-- **The rapid graph has the least closed set of functions as its nodes.** The queue is empty at
the end, and every exploration from the main functions, in any order, makes at most as many visits
as there are functions and ends at the same nodes. -/
theorem rapidGraph_nodes_isLeast (p : Program) (hp : p.CalleesExist)
    (hmain : p.mainFunctions ≠ []) : ∃ g, p.rapidGraph? = some g ∧
      (Rapid.run p p.functions.length (startAt p.mainFunctions)).queue = [] ∧
      IsLeast {R | Closed p R} {f | f ∈ g.nodes} ∧
      ∀ roots, roots.Perm p.mainFunctions → ∀ visited s, Explores p (startAt roots) visited s →
        visited.length ≤ p.functions.length ∧
        (s.queue = [] → ∀ f, f ∈ s.graph.nodes ↔ f ∈ g.nodes) := by
  obtain ⟨visited, h, hq⟩ := exists_explores_run hp p.mainFunctions fun _ hf => hf
  have hleast := h.isLeast_closed (fun _ => Iff.rfl) hq
  refine ⟨_, rapidGraph?_eq hmain, hq, hleast,
    fun roots hroots visited' s h' => ⟨?_, fun hq' f => ?_⟩⟩
  · have hle := h'.length_le hp fun f => hroots.mem_iff.mp
    omega
  · have hleast' := h'.isLeast_closed (fun f => hroots.mem_iff) hq'
    exact Set.ext_iff.mp (hleast'.unique hleast) f

theorem rapidGraph_nodes_isLeast_sample : sample.CalleesExist ∧ sample.mainFunctions ≠ [] ∧
    sample.rapidGraph? = some sampleGraph ∧
      IsLeast {R | Closed sample R} {f | f ∈ [0, 1, 3, 2]} := by
  obtain ⟨g, hg, _, hleast, _⟩ := rapidGraph_nodes_isLeast sample (by decide) (by decide)
  rw [rapidGraph?_sample, Option.some.injEq] at hg
  subst hg
  exact ⟨by decide, by decide, rapidGraph?_sample, hleast⟩

/-- **Every site of a reached function is linked to each of its targets once.** The edges of
the rapid graph are those of the sites of its nodes to their targets among the types that
its nodes allocate and the addresses that its nodes take, whichever of site, type and
address is found first. -/
theorem rapidGraph_edges_perm (p : Program) (hp : p.CalleesExist) (hmain : p.mainFunctions ≠ []) :
    ∃ g, p.rapidGraph? = some g ∧ g.nodes.Nodup ∧
      g.edges.Perm (g.nodes.flatMap fun f => (p.factsOf f).sites.flatMap (siteEdges (p.targetsAmong
        (g.nodes.flatMap fun h => (p.factsOf h).allocations)
        (g.nodes.flatMap fun h => (p.factsOf h).addressTaken)) f)) ∧
      ∀ roots, roots.Perm p.mainFunctions → ∀ visited s, Explores p (startAt roots) visited s →
        s.queue = [] → s.graph.edges.Perm g.edges := by
  obtain ⟨visited, h, hq⟩ := exists_explores_run hp p.mainFunctions fun _ hf => hf
  obtain ⟨_, hr, _, _⟩ := h.remembers
  have hedges := h.edges_perm.trans (linksFrom_perm (h.nodes_perm hq).symm)
  refine ⟨_, rapidGraph?_eq hmain, hr.nodup, hedges, fun roots hroots visited' s h' hq' => ?_⟩
  obtain ⟨_, hr', _, _⟩ := h'.remembers
  have hnodes : s.graph.nodes.Perm
      (Rapid.run p p.functions.length (startAt p.mainFunctions)).graph.nodes := by
    rw [List.perm_ext_iff_of_nodup hr'.nodup hr.nodup]
    have hleast := h.isLeast_closed (fun _ => Iff.rfl) hq
    have hleast' := h'.isLeast_closed (fun f => hroots.mem_iff) hq'
    exact Set.ext_iff.mp (hleast'.unique hleast)
  exact h'.edges_perm.trans ((linksFrom_perm ((h'.nodes_perm hq').symm.trans hnodes)).trans
    hedges.symm)

theorem rapidGraph_edges_perm_sample : sample.CalleesExist ∧ sample.mainFunctions ≠ [] ∧
    sample.rapidGraph? = some sampleGraph ∧
    sampleGraph.edges.Perm (sampleGraph.nodes.flatMap fun f =>
      (sample.factsOf f).sites.flatMap (siteEdges (sample.targetsAmong [1, 2] [3]) f)) := by
  obtain ⟨g, hg, _, hedges, _⟩ := rapidGraph_edges_perm sample (by decide) (by decide)
  rw [rapidGraph?_sample, Option.some.injEq] at hg
  subst hg
  exact ⟨by decide, by decide, rapidGraph?_sample, hedges⟩

end Program

end CallAtlas
