import CallAtlas.Proofs.Materialize.Run
import CallAtlas.Proofs.Walk.Postorder

/-!
# How far a walk has come

The progress counts the functions whose calls were visited. The calls of one function are
visited in stretches, with the calls of its callees in between, so a walk remembers which
functions it has counted.

To speak of every point of a walk, the walk is taken apart into its actions (`steps`): a call is
checked, its caller is counted, and if the filter accepts it, the nodes of its ends are added and
sent, then its edge. Only the counting has to do with the progress (`Untracked`). What it keeps true
(`Counted`) gives the bound, and since the walk covers all edges, it gives the count at the end.
-/

set_option autoImplicit false

namespace CallAtlas

theorem CallGraph.walk_perm_calls {g : CallGraph} (hg : g.WellFormed) : g.walk.Perm g.calls := by
  obtain ⟨n, t, hruns, hend, hvisited⟩ := CallGraph.exists_runs_walk hg
  rw [← hvisited]
  exact (hruns.sound hg (CallGraph.sound_nil g)).visited_perm hg hend

theorem CallGraph.mem_callers_walk {g : CallGraph} (hg : g.WellFormed) {f : FuncId} :
    f ∈ g.walk.map Prod.fst ↔ f ∈ g.edges.map CallEdge.caller := by
  rw [((CallGraph.walk_perm_calls hg).map Prod.fst).mem_iff, CallGraph.calls, List.map_map]
  rfl

namespace Materializer

variable {α β : Type} {m : Materializer} {s : State}

/-! ## Actions that have nothing to do with the progress -/

/-- Whether the action succeeds or fails, it counts no caller and leaves the progress as it is. -/
def Untracked (x : Action α) : Prop :=
  ∀ s, (x.run.run s).2.callers = s.callers ∧ (x.run.run s).2.progress = s.progress

theorem Untracked.bind {x : Action α} {f : α → Action β} (hx : Untracked x)
    (hf : ∀ a, Untracked (f a)) : Untracked (x >>= f) := by
  intro s
  have hfirst := hx s
  cases hrun : x.run.run s with
  | mk answer s' =>
    rw [hrun] at hfirst
    cases answer with
    | ok a =>
      rw [run_bind_of_ok hrun]
      exact ⟨(hf a s').1.trans hfirst.1, (hf a s').2.trans hfirst.2⟩
    | error error =>
      rw [run_bind_of_error hrun]
      exact hfirst

theorem untracked_pure (a : α) : Untracked (pure a) := fun _ => ⟨rfl, rfl⟩

theorem untracked_throw (error : Error) : Untracked (throw error : Action α) := fun _ => ⟨rfl, rfl⟩

theorem untracked_get : Untracked (get : Action State) := fun _ => ⟨rfl, rfl⟩

theorem untracked_modify {f : State → State}
    (hf : ∀ s, (f s).callers = s.callers ∧ (f s).progress = s.progress) :
    Untracked (modify f : Action Unit) := hf

theorem untracked_checkCancelled (m : Materializer) : Untracked m.checkCancelled := by
  unfold checkCancelled
  split
  · exact untracked_throw _
  · exact untracked_pure _

theorem untracked_reportEvery (interval count : Nat) : Untracked (reportEvery interval count) := by
  unfold reportEvery
  apply untracked_get.bind
  intro s
  dsimp only
  split
  · exact untracked_modify fun _ => ⟨rfl, rfl⟩
  · exact untracked_pure _

theorem untracked_send (m : Materializer) (item : Item) : Untracked (m.send item) := by
  unfold send
  split
  · exact untracked_pure _
  · apply (untracked_checkCancelled m).bind
    intro _
    apply untracked_get.bind
    intro s
    dsimp only
    split
    · exact untracked_modify fun _ => ⟨rfl, rfl⟩
    · exact untracked_throw _

theorem untracked_ensureNode (m : Materializer) (f : Function) : Untracked (m.ensureNode f) := by
  unfold ensureNode
  apply untracked_get.bind
  intro s
  split
  · refine Untracked.bind (untracked_modify fun _ => ⟨rfl, rfl⟩) ?_
    intro _
    apply (untracked_send m _).bind
    intro _
    apply untracked_get.bind
    intro s
    exact untracked_reportEvery _ _
  · exact untracked_pure _

/-! ## A walk as a list of actions -/

/-- Actions one after another, up to the first that fails. -/
def inTurn (xs : List (Action Unit)) : Action Unit := forM xs id

/-- Reports the size of the graph if the number of its edges is a multiple of the interval. -/
def reportEdges : Action Unit := do
  reportEvery edgeInterval (← get).graph.edges.length

/-- The actions of a visit to a call. -/
def callSteps (m : Materializer) (e : FuncId × FuncId) : List (Action Unit) :=
  let edge := GraphEdge.ofCall (m.function e.1, m.function e.2)
  [m.checkCancelled, recordCaller e.1] ++
    if m.filter.accepts (m.function e.1) (m.function e.2) then
      [m.ensureNode (m.function e.1), m.ensureNode (m.function e.2),
        modify fun s => { s with graph := s.graph.addEdge edge }, m.send (.edge edge), reportEdges]
    else []

/-- The actions of a walk once its progress is reset. -/
def steps (m : Materializer) (g : CallGraph) : List (Action Unit) := g.walk.flatMap m.callSteps

theorem visitCall_eq_steps (m : Materializer) (e : FuncId × FuncId) :
    m.visitCall e.1 e.2 = inTurn (m.callSteps e) := by
  unfold visitCall callSteps inTurn
  by_cases haccepts : m.filter.accepts (m.function e.1) (m.function e.2) = true
  · simp [haccepts, addCall, reportEdges]
  · simp [haccepts]

theorem visit_eq_steps (m : Materializer) (g : CallGraph) :
    g.visit m.visitCall = inTurn (m.steps g) := by
  rw [CallGraph.visit_eq_forM_walk, steps, inTurn]
  induction g.walk with
  | nil => rfl
  | cons e calls ih =>
    rw [List.forM_cons, ih, List.flatMap_cons, List.forM_append, visitCall_eq_steps, inTurn]

theorem mem_steps {g : CallGraph} {x : Action Unit} (h : x ∈ m.steps g) :
    Untracked x ∨ ∃ f ∈ g.walk.map Prod.fst, x = recordCaller f := by
  obtain ⟨e, he, hx⟩ := List.mem_flatMap.mp h
  rcases List.mem_append.mp hx with hx | hx
  · rcases List.mem_cons.mp hx with rfl | hx
    · exact Or.inl (untracked_checkCancelled m)
    · exact Or.inr ⟨e.1, List.mem_map_of_mem he, List.mem_singleton.mp hx⟩
  · refine Or.inl ?_
    split at hx
    · simp only [List.mem_cons, List.not_mem_nil, or_false] at hx
      rcases hx with rfl | rfl | rfl | rfl | rfl
      · exact untracked_ensureNode m _
      · exact untracked_ensureNode m _
      · exact untracked_modify fun _ => ⟨rfl, rfl⟩
      · exact untracked_send m _
      · exact untracked_get.bind fun _ => untracked_reportEvery _ _
    · exact absurd hx List.not_mem_nil

theorem recordCaller_mem_steps {g : CallGraph} {f : FuncId} (h : f ∈ g.walk.map Prod.fst) :
    recordCaller f ∈ m.steps g := by
  obtain ⟨e, he, rfl⟩ := List.mem_map.mp h
  exact List.mem_flatMap.mpr ⟨e, he, List.mem_append_left _ (by simp)⟩

/-! ## What is counted -/

/-- The functions counted are distinct and have calls, and the progress is their number. -/
structure Counted (g : CallGraph) (s : State) : Prop where
  total : s.progress.total = g.nodes.length
  visited : s.progress.visited = s.callers.length
  nodup : s.callers.Nodup
  callers : ∀ f ∈ s.callers, f ∈ g.walk.map Prod.fst

/-- Nothing that was counted is forgotten. -/
structure Advances (s s' : State) : Prop where
  callers : s.callers ⊆ s'.callers
  visited : s.progress.visited ≤ s'.progress.visited

theorem Advances.refl (s : State) : Advances s s := ⟨List.Subset.refl _, Nat.le_refl _⟩

theorem Advances.trans {s s' s'' : State} (h : Advances s s') (h' : Advances s' s'') :
    Advances s s'' :=
  ⟨List.Subset.trans h.callers h'.callers, Nat.le_trans h.visited h'.visited⟩

theorem recordCaller_of_mem {f : FuncId} (h : f ∈ s.callers) :
    (recordCaller f).run.run s = (.ok (), s) := by
  rw [recordCaller, modify_run, if_pos (List.contains_iff_mem.mpr h)]

theorem recordCaller_of_notMem {f : FuncId} (h : f ∉ s.callers) :
    (recordCaller f).run.run s =
      (.ok (), { s with callers := f :: s.callers, progress := s.progress.record 1 }) := by
  rw [recordCaller, modify_run, if_neg fun hc => h (List.contains_iff_mem.mp hc)]

variable {g : CallGraph}

theorem Counted.recordCaller (h : Counted g s) {f : FuncId} (hf : f ∈ g.walk.map Prod.fst) :
    Counted g ((recordCaller f).run.run s).2 ∧ Advances s ((recordCaller f).run.run s).2 ∧
      f ∈ ((recordCaller f).run.run s).2.callers := by
  by_cases hmem : f ∈ s.callers
  · rw [recordCaller_of_mem hmem]
    exact ⟨h, .refl s, hmem⟩
  · rw [recordCaller_of_notMem hmem]
    refine ⟨⟨h.total, congrArg (· + 1) h.visited, List.nodup_cons.mpr ⟨hmem, h.nodup⟩, ?_⟩,
      ⟨List.subset_cons_self _ _, Nat.le_succ _⟩, List.mem_cons_self⟩
    intro f' hf'
    rcases List.mem_cons.mp hf' with rfl | hf'
    · exact hf
    · exact h.callers f' hf'

theorem Counted.untracked (h : Counted g s) {x : Action Unit} (hx : Untracked x) :
    Counted g (x.run.run s).2 ∧ Advances s (x.run.run s).2 := by
  obtain ⟨hcallers, hprogress⟩ := hx s
  refine ⟨⟨?_, ?_, ?_, ?_⟩, ?_, ?_⟩
  · rw [hprogress, h.total]
  · rw [hprogress, hcallers, h.visited]
  · rw [hcallers]
    exact h.nodup
  · rw [hcallers]
    exact h.callers
  · intro f hf
    rwa [hcallers]
  · exact Nat.le_of_eq (congrArg Progress.visited hprogress).symm

/-- **One action keeps the count right**, whether it succeeds or fails. -/
theorem Counted.step (h : Counted g s) {x : Action Unit} (hx : x ∈ m.steps g) :
    Counted g (x.run.run s).2 ∧ Advances s (x.run.run s).2 := by
  rcases mem_steps hx with hx | ⟨f, hf, rfl⟩
  · exact h.untracked hx
  · obtain ⟨hcounted, hadvances, _⟩ := h.recordCaller hf
    exact ⟨hcounted, hadvances⟩

/-- Actions of a walk keep the count right, and if all succeed, every caller that they
count is counted. -/
theorem Counted.inTurn {xs : List (Action Unit)} (hxs : ∀ x ∈ xs, x ∈ m.steps g) (h : Counted g s) :
    Counted g ((inTurn xs).run.run s).2 ∧ Advances s ((inTurn xs).run.run s).2 ∧
      (((inTurn xs).run.run s).1 = .ok () → ∀ f ∈ g.walk.map Prod.fst,
        Materializer.recordCaller f ∈ xs → f ∈ ((inTurn xs).run.run s).2.callers) := by
  induction xs generalizing s with
  | nil => exact ⟨h, .refl s, fun _ f _ hmem => absurd hmem List.not_mem_nil⟩
  | cons x xs ih =>
    obtain ⟨hx, hxs⟩ := List.forall_mem_cons.mp hxs
    obtain ⟨hcounted, hadvances⟩ := h.step hx
    cases hrun : x.run.run s with
    | mk answer s' =>
      rw [hrun] at hcounted hadvances
      cases answer with
      | error error =>
        have hstop : (Materializer.inTurn (x :: xs)).run.run s = (.error error, s') :=
          run_bind_of_error hrun
        rw [hstop]
        exact ⟨hcounted, hadvances, fun hok => by cases hok⟩
      | ok _ =>
        have hnext : (Materializer.inTurn (x :: xs)).run.run s =
            (Materializer.inTurn xs).run.run s' := run_bind_of_ok hrun
        obtain ⟨hcounted', hadvances', hall⟩ := ih hxs hcounted
        rw [hnext]
        refine ⟨hcounted', hadvances.trans hadvances', fun hok f hf hmem => ?_⟩
        rcases List.mem_cons.mp hmem with rfl | hmem
        · -- counted by the first action, and not forgotten since
          obtain ⟨_, _, hcaller⟩ := h.recordCaller hf
          rw [hrun] at hcaller
          exact hadvances'.callers hcaller
        · exact hall hok f hf hmem

/-! ## The points of a walk -/

/-- The state once the progress is reset. -/
def resetState (m : Materializer) (g : CallGraph) : State where
  progress := .start g.nodes.length
  messages := [s!"Starting to build call graph, using algorithm: {m.label}"]

/-- The state after the first actions of a walk; one that fails is the last. -/
def stateAfter (m : Materializer) (g : CallGraph) (n : Nat) : State :=
  ((inTurn ((m.steps g).take n)).run.run (m.resetState g)).2

theorem walk_eq_steps (m : Materializer) (g : CallGraph) :
    (m.walk g).run.run {} =
      (do inTurn (m.steps g); return (← get).graph : Action KeyGraph).run.run (m.resetState g) := by
  rw [← visit_eq_steps]
  exact (run_bind_of_ok (modify_run _ _)).trans (run_bind_of_ok (modify_run _ _))

theorem counted_resetState (m : Materializer) (g : CallGraph) : Counted g (m.resetState g) :=
  ⟨rfl, rfl, List.nodup_nil, fun _ h => absurd h List.not_mem_nil⟩

theorem counted_stateAfter (m : Materializer) (g : CallGraph) (n : Nat) :
    Counted g (m.stateAfter g n) := by
  have hsteps : ∀ x ∈ (m.steps g).take n, x ∈ m.steps g := fun x hx => List.mem_of_mem_take hx
  exact ((counted_resetState m g).inTurn hsteps).1

theorem advances_stateAfter (m : Materializer) (g : CallGraph) {n k : Nat} (h : n ≤ k) :
    Advances (m.stateAfter g n) (m.stateAfter g k) := by
  obtain ⟨later, hsplit⟩ : (m.steps g).take n <+: (m.steps g).take k := List.take_prefix_take_left h
  have hlater : ∀ x ∈ later, x ∈ m.steps g := by
    intro x hx
    apply List.mem_of_mem_take
    rw [← hsplit]
    exact List.mem_append_right _ hx
  have hcounted := counted_stateAfter m g n
  have happend : inTurn ((m.steps g).take k) =
      inTurn ((m.steps g).take n) >>= fun _ => inTurn later := by
    rw [← hsplit]
    exact List.forM_append
  unfold stateAfter at hcounted ⊢
  rw [happend]
  cases hrun : (inTurn ((m.steps g).take n)).run.run (m.resetState g) with
  | mk answer s' =>
    rw [hrun] at hcounted
    cases answer with
    | error error =>
      rw [run_bind_of_error hrun]
      exact .refl s'
    | ok _ =>
      rw [run_bind_of_ok hrun]
      exact (hcounted.inTurn hlater).2.1

/-- The last point of a walk is its end, and a walk that returns a graph has come through all its
actions. -/
theorem walk_end (m : Materializer) (g : CallGraph) :
    ((m.walk g).run.run {}).2 = m.stateAfter g (m.steps g).length ∧
      ∀ out, ((m.walk g).run.run {}).1 = .ok out →
        ((inTurn (m.steps g)).run.run (m.resetState g)).1 = .ok () := by
  rw [walk_eq_steps, stateAfter, List.take_length]
  cases hrun : (inTurn (m.steps g)).run.run (m.resetState g) with
  | mk answer s' =>
    cases answer with
    | error error =>
      rw [run_bind_of_error hrun]
      exact ⟨rfl, fun out hok => by cases hok⟩
    | ok _ =>
      rw [run_bind_of_ok hrun]
      exact ⟨rfl, fun _ _ => rfl⟩

/-- The callers that are counted are nodes, so there are at most as many. -/
theorem Counted.visited_le (hg : g.WellFormed) (h : Counted g s) :
    s.progress.visited ≤ s.progress.total := by
  rw [h.visited, h.total]
  refine (List.subperm_of_subset h.nodup fun f hf => ?_).length_le
  obtain ⟨e, he, rfl⟩ := List.mem_map.mp ((CallGraph.mem_callers_walk hg).mp (h.callers f hf))
  exact hg.caller_mem e he

/-- With all callers counted, the progress is the number of nodes that have a call. -/
theorem Counted.visited_eq (hg : g.WellFormed) (h : Counted g s)
    (hall : ∀ f ∈ g.walk.map Prod.fst, f ∈ s.callers) :
    s.progress.visited = (g.nodes.filter fun f => g.edges.any fun e => e.caller == f).length := by
  rw [h.visited]
  refine ((List.perm_ext_iff_of_nodup h.nodup (hg.nodup.filter _)).mpr fun f => ?_).length_eq
  have hcaller : f ∈ s.callers ↔ ∃ e ∈ g.edges, e.caller = f := by
    rw [← List.mem_map, ← CallGraph.mem_callers_walk hg]
    exact ⟨h.callers f, hall f⟩
  rw [hcaller, List.mem_filter, List.any_eq_true]
  constructor
  · rintro ⟨e, he, rfl⟩
    exact ⟨hg.caller_mem e he, e, he, beq_self_eq_true _⟩
  · rintro ⟨_, e, he, heq⟩
    exact ⟨e, he, eq_of_beq heq⟩

/-- **The progress counts each calling function once.** A walk over a graph built by any insertions
resets its progress and then does its actions one after another, up to the first that fails. At
every point of it the total is the number of nodes and no more are visited; from a point to a later
one the number visited does not decrease; and the last point is where the run ends. If the run
returns a graph, the number visited is that of the nodes with at least one edge out of them,
whatever the filter accepts and whoever takes the items. -/
theorem progress_counts_callers (m : Materializer) (insertions : List CallGraph.Insertion) :
    let g := CallGraph.ofInsertions insertions
    (m.walk g).run.run {} =
        (do inTurn (m.steps g); return (← get).graph : Action KeyGraph).run.run (m.resetState g) ∧
      (∀ n, (m.stateAfter g n).progress.total = g.nodes.length ∧
        (m.stateAfter g n).progress.visited ≤ g.nodes.length) ∧
      (∀ n k, n ≤ k → (m.stateAfter g n).progress.visited ≤ (m.stateAfter g k).progress.visited) ∧
      (m.run g).2.progress = (m.stateAfter g (m.steps g).length).progress ∧
      ∀ out, (m.run g).1 = .ok out → (m.run g).2.progress =
        { visited := (g.nodes.filter fun f => g.edges.any fun e => e.caller == f).length
          total := g.nodes.length } := by
  intro g
  have hg : g.WellFormed := CallGraph.wellFormed_ofInsertions insertions
  obtain ⟨hend, hsucceeds⟩ := m.walk_end g
  have hlast : (m.run g).2.progress = (m.stateAfter g (m.steps g).length).progress := by
    rw [← hend]
    rfl
  refine ⟨m.walk_eq_steps g, fun n => ?_,
    fun n k hle => (m.advances_stateAfter g hle).visited, hlast, fun out hok => ?_⟩
  · have hcounted := m.counted_stateAfter g n
    have hle := hcounted.visited_le hg
    rw [hcounted.total] at hle
    exact ⟨hcounted.total, hle⟩
  · -- every caller is counted by one of the actions, and all of them succeeded
    have hall : ∀ f ∈ g.walk.map Prod.fst, f ∈ (m.stateAfter g (m.steps g).length).callers := by
      intro f hf
      obtain ⟨_, _, hcallers⟩ := (counted_resetState m g).inTurn fun x (hx : x ∈ m.steps g) => hx
      rw [stateAfter, List.take_length]
      exact hcallers (hsucceeds out hok) f hf (recordCaller_mem_steps hf)
    have hcounted := m.counted_stateAfter g (m.steps g).length
    rw [hlast, ← hcounted.total, ← hcounted.visited_eq hg hall]

/-- `main` calls two functions, each of which has a call of its own, so that the calls of `main`
are visited in two stretches. The call of the second one, to a wrapper, is not kept, and one
function is alone. -/
def stretches : List CallGraph.Insertion :=
  [.edge ⟨0, 1, 3⟩, .edge ⟨1, 1, 9⟩, .edge ⟨0, 2, 4⟩, .edge ⟨2, 3, 6⟩, .node 4]

theorem progress_counts_callers_stretches :
    (CallGraph.ofInsertions stretches).walk = [(1, 1), (0, 1), (2, 3), (0, 2)] ∧
      ∃ out, (sharedKey.run (.ofInsertions stretches)).1 = .ok out ∧
        (sharedKey.run (.ofInsertions stretches)).2.progress = { visited := 3, total := 5 } ∧
        (sharedKey.stateAfter (.ofInsertions stretches) 7).progress = { visited := 1, total := 5 } ∧
        (sharedKey.stateAfter (.ofInsertions stretches) 9).progress = { visited := 2, total := 5 } ∧
        (sharedKey.stateAfter (.ofInsertions stretches) 9).progress.visited ≤
          (sharedKey.stateAfter (.ofInsertions stretches) 12).progress.visited := by
  obtain ⟨_, _, hmono, _, hend⟩ := progress_counts_callers sharedKey stretches
  have hevaluated : (CallGraph.ofInsertions stretches).walk = [(1, 1), (0, 1), (2, 3), (0, 2)] ∧
      (sharedKey.run (.ofInsertions stretches)).1.toBool = true ∧
      (sharedKey.stateAfter (.ofInsertions stretches) 7).progress = { visited := 1, total := 5 } ∧
      (sharedKey.stateAfter (.ofInsertions stretches) 9).progress =
          { visited := 2, total := 5 } := by
    decide +kernel
  obtain ⟨hwalk, hok, hfirst, hsecond⟩ := hevaluated
  cases hrun : (sharedKey.run (.ofInsertions stretches)).1 with
  | error error =>
    rw [hrun] at hok
    cases hok
  | ok out => exact ⟨hwalk, out, rfl, hend out hrun, hfirst, hsecond, hmono 9 12 (by decide)⟩

end Materializer

end CallAtlas
