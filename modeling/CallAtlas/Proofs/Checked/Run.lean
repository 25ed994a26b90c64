import CallAtlas.Analysis.Algorithm
import CallAtlas.Proofs.Checked.Rapid
import CallAtlas.Proofs.Materialize.Run
import CallAtlas.Proofs.ValueFlow.Wrappers

/-!
# Graphs and their walks with every access checked

A graph that one of the analyses builds from a grounded program has functions of the program only.
The walk over it looks up both ends of every call that it visits, so it finds them.
-/

set_option autoImplicit false

namespace CallAtlas

namespace Checked

/-! ## All four -/

def build (a : Algorithm) (p : Program) : Option (Except Error CallGraph) :=
  match a with
  | .static => do some (.ok (← graphBy p fun site => some (Program.namedTargets site)))
  | .hierarchy => do some (.ok (← graphBy p (hierarchyTargets p)))
  | .rapid => do some ((← rapidGraph? p).elim (.error .noMainPackage) .ok)
  | .valueFlow => do some (.ok (← valueFlowGraph p))

theorem build_eq {p : Program} (hp : p.Grounded) (a : Algorithm) :
    build a p = some (a.build p) := by
  cases a with
  | static =>
    rw [build, graphBy_eq hp fun func site hsite => rfl]
    rfl
  | hierarchy =>
    rw [build, graphBy_eq hp fun func site hsite =>
      hierarchyTargets_eq hp ((hp.factsOf func).targets site hsite)]
    rfl
  | rapid =>
    rw [build, (rapidGraph?_eq hp).1]
    rfl
  | valueFlow =>
    rw [build, valueFlowGraph_eq hp]
    rfl

-- a call of a function that is not there leaves the analysis without a result
example : (build .rapid {
    packages := [{ path := "m", name := "main", funcs := ⟨[("main", 0)]⟩ }]
    functions := [{ key := "m.main", name := "main", package := some "m", kind := .function }]
    facts := [{ sites := [{ line := 3, target := .static 1 }] }] }).isNone = true := by
  decide

end Checked

/-- The graphs have the functions of the program only. -/
theorem Algorithm.below_of_build {p : Program} (hp : p.Grounded) {a : Algorithm} {g : CallGraph}
    (h : a.build p = .ok g) : g.Below p.functions.length := by
  have hgraph {targets : CallSite → List FuncId} (htargets : ∀ func,
      ∀ site ∈ (p.factsOf func).sites, ∀ callee ∈ targets site, callee < p.functions.length) :
      (p.graphBy targets).Below p.functions.length := by
    refine CallGraph.Below.foldl_addEdge ⟨⟨List.nodup_range, ?_, ?_⟩, ?_⟩ fun e he => ?_
    · exact fun _ h => absurd h List.not_mem_nil
    · exact fun _ h => absurd h List.not_mem_nil
    · exact fun f hf => List.mem_range.mp hf
    · obtain ⟨site, hsite, hcallee, _⟩ := Program.mem_edgesBy.mp he
      exact ⟨hp.lt_of_mem_sites hsite, htargets e.caller site hsite e.callee hcallee⟩
  cases a with
  | static =>
    obtain rfl := Except.ok.inj h
    refine hgraph fun func site hsite callee hcallee => ?_
    have htarget := (hp.factsOf func).targets site hsite
    unfold Program.namedTargets at hcallee
    split at hcallee
    · rename_i target ht
      rw [ht] at htarget
      rw [List.mem_singleton.mp hcallee]
      exact htarget
    · cases hcallee
  | hierarchy =>
    obtain rfl := Except.ok.inj h
    exact hgraph fun func site hsite callee hcallee =>
      hp.lt_of_mem_hierarchyTargets ((hp.factsOf func).targets site hsite) hcallee
  | rapid =>
    unfold build at h
    cases hrapid : p.rapidGraph? with
    | none =>
      rw [hrapid] at h
      cases h
    | some found =>
      rw [hrapid] at h
      obtain rfl := Except.ok.inj h
      exact (Checked.rapidGraph?_eq hp).2 _ hrapid
  | valueFlow =>
    obtain rfl := Except.ok.inj h
    exact hgraph fun func site hsite callee hcallee => hp.lt_of_mem_flowTargets hsite hcallee

/-! ## Walks -/

theorem CallGraph.Below.lt_of_mem_walk {n : Nat} {g : CallGraph} (hg : g.Below n)
    {e : FuncId × FuncId} (h : e ∈ g.walk) : e.1 < n ∧ e.2 < n := by
  obtain ⟨_, t, hruns, hend, hvisited⟩ := CallGraph.exists_runs_walk hg.toWellFormed
  have hsound := hruns.sound hg.toWellFormed (CallGraph.sound_nil g)
  have hcalls : e ∈ g.calls := (hsound.visited_perm hg.toWellFormed hend).mem_iff.mp (hvisited ▸ h)
  obtain ⟨edge, hedge, rfl⟩ := List.mem_map.mp hcalls
  exact ⟨hg.lt _ (hg.caller_mem edge hedge), hg.lt _ (hg.callee_mem edge hedge)⟩

namespace Checked

open Materializer (State)

/-- An action of a walk. It has no outcome at all, not even a failure, where it looks up a function
that is not there. -/
abbrev Action := ExceptT Error (StateT State Option)

/-- An action that looks up nothing. -/
def lift {α : Type} (x : Materializer.Action α) : Action α := ExceptT.mk fun s => some (x.run.run s)

section

variable (m : Materializer)

def function (id : FuncId) : Action Function :=
  ExceptT.mk fun s => m.program.functions[id]?.map fun f => (.ok f, s)

def visitCall (caller callee : FuncId) : Action Unit := do
  lift m.checkCancelled
  lift (Materializer.recordCaller caller)
  let f ← function m caller
  let g ← function m callee
  if m.filter.accepts f g then lift (m.addCall f g)

def walk (g : CallGraph) : Action KeyGraph := do
  lift (Materializer.report s!"Starting to build call graph, using algorithm: {m.label}")
  lift (modify fun s => { s with progress := .start g.nodes.length })
  g.visit (visitCall m)
  return (← lift get).graph

def materialize (g : CallGraph) : Option (Except Error KeyGraph × State) :=
  ((walk m g).run.run {}).map Materializer.conclude

end

section

variable {α β : Type}

theorem run_lift (x : Materializer.Action α) (s : State) :
    (lift x).run.run s = some (x.run.run s) := rfl

theorem lift_pure (a : α) : lift (pure a) = pure a := rfl

theorem lift_bind (x : Materializer.Action α) (f : α → Materializer.Action β) :
    lift (x >>= f) = lift x >>= fun a => lift (f a) := by
  refine ExceptT.ext (StateT.ext fun s => ?_)
  rw [run_lift, ExceptT.run_bind, StateT.run_bind, ExceptT.run_bind, StateT.run_bind, run_lift]
  cases hx : x.run.run s with
  | mk result s' =>
    cases result with
    | ok a => rfl
    | error e => rfl

theorem forM_eq_lift {f : α → Action Unit} {g : α → Materializer.Action Unit} {xs : List α}
    (h : ∀ x ∈ xs, f x = lift (g x)) : forM xs f = lift (forM xs g) := by
  induction xs with
  | nil => rfl
  | cons x rest ih =>
    rw [List.forM_cons, List.forM_cons, lift_bind, h x List.mem_cons_self,
      ih fun y hy => h y (List.mem_cons_of_mem _ hy)]

end

variable {m : Materializer}

theorem function_eq {id : FuncId} (h : id < m.program.functions.length) :
    function m id = pure (m.function id) := by
  have hf := List.getElem?_eq_getElem h
  rw [Materializer.function, hf]
  refine ExceptT.ext (StateT.ext fun s => ?_)
  show (m.program.functions[id]?).map _ = _
  rw [hf]
  rfl

theorem visitCall_eq {caller callee : FuncId} (hcaller : caller < m.program.functions.length)
    (hcallee : callee < m.program.functions.length) :
    visitCall m caller callee = lift (m.visitCall caller callee) := by
  rw [visitCall, Materializer.visitCall, lift_bind, function_eq hcaller, function_eq hcallee]
  simp only [lift_bind, pure_bind]
  split
  · rfl
  · rfl

theorem walk_eq {g : CallGraph} (hg : g.Below m.program.functions.length) :
    walk m g = lift (m.walk g) := by
  have hvisit : g.visit (visitCall m) = lift (g.visit m.visitCall) := by
    rw [CallGraph.visit_eq_forM_walk, CallGraph.visit_eq_forM_walk]
    refine forM_eq_lift fun e he => ?_
    obtain ⟨hcaller, hcallee⟩ := hg.lt_of_mem_walk he
    exact visitCall_eq hcaller hcallee
  rw [walk, Materializer.walk, hvisit]
  simp only [lift_bind, lift_pure]

theorem materialize_eq {g : CallGraph} (hg : g.Below m.program.functions.length) :
    materialize m g = some (m.run g) := by
  rw [materialize, walk_eq hg, run_lift, Materializer.run]
  rfl

end Checked

/-! ## Programs that load -/

/-- **Nothing is looked up that is not there.** A program that loads has facts for every function,
and every number in it is that of something that is there. So none of the four analyses, and no walk
over a graph that one of them builds, looks up a function, facts or a type in vain: with every
access checked they have their result, and it is the same. -/
theorem Disk.loadProgram_accesses_in_range {d : Disk} {platform : Build.Platform} {module : Module}
    {start : String} {p : Program} (h : d.loadProgram platform module start = .ok p) :
    p.Grounded ∧ (∀ a : Algorithm, Checked.build a p = some (a.build p)) ∧
      ∀ (a : Algorithm) (g : CallGraph) (m : Materializer), a.build p = .ok g → m.program = p →
        Checked.materialize m g = some (m.run g) := by
  have hp := Disk.loadProgram_grounded h
  refine ⟨hp, Checked.build_eq hp, fun a g m hbuild hprogram => ?_⟩
  subst hprogram
  exact Checked.materialize_eq (Algorithm.below_of_build hp hbuild)

/-- A function value goes to an instance of a generic function, which calls it. -/
theorem Disk.loadProgram_accesses_in_range_passesShow :
    Program.passesShow.loadProgram .host Program.passesShowModule "/w" =
      .ok Program.passesShowProgram ∧ Program.passesShowProgram.Grounded ∧
      (∀ a : Algorithm, Checked.build a Program.passesShowProgram =
        some (a.build Program.passesShowProgram)) ∧
      ∀ filter label, Checked.materialize { program := Program.passesShowProgram, filter, label }
          Program.passesShowProgram.valueFlowGraph =
        some (Materializer.run { program := Program.passesShowProgram, filter, label }
          Program.passesShowProgram.valueFlowGraph) := by
  have hloads := Program.passesShow_loads
  obtain ⟨hgrounded, hbuild, hrun⟩ := Disk.loadProgram_accesses_in_range hloads
  exact ⟨hloads, hgrounded, hbuild, fun filter label => hrun .valueFlow _ _ rfl rfl⟩

end CallAtlas
