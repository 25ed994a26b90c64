import CallAtlas.Proofs.Walk.Steps

/-!
# What the walk visits

The walk is written for a visitor in any monad, and with a bound on its steps. Neither matters.
`visit_eq_forM_walk`: a visitor is called on the calls of `walk`, in their order, and on nothing
else, so what it does is known once `walk` is. `exists_runs_walk`: the bound is never reached, so
that `walk` is a tour to its end.
-/

set_option autoImplicit false

namespace CallAtlas

section Failing

variable {ε σ α β : Type} {x : ExceptT ε (StateM σ) α} {f : α → ExceptT ε (StateM σ) β} {s s' : σ}

theorem run_bind_of_ok {a : α} (h : x.run.run s = (.ok a, s')) :
    (x >>= f).run.run s = (f a).run.run s' := by
  rw [ExceptT.run_bind, StateT.run_bind, h]
  rfl

theorem run_bind_of_error {error : ε} (h : x.run.run s = (.error error, s')) :
    (x >>= f).run.run s = (.error error, s') := by
  rw [ExceptT.run_bind, StateT.run_bind, h]
  rfl

end Failing

namespace CallGraph

/-! ## From the code to tours -/

/-- A walk from a stack is a tour that ends with an empty stack or for want of steps, and calls the
visitor on what the tour visits. -/
theorem exists_runs_walkFrom (g : CallGraph) (fuel : Nat) (t : Tour) :
    ∃ n t' trace, Runs g n t t' ∧ (t'.stack = [] ∨ n = fuel) ∧ t'.visited = t.visited ++ trace ∧
      ∀ {m : Type → Type} [Monad m] [LawfulMonad m] (visitor : FuncId → FuncId → m Unit),
        g.walkFrom visitor fuel t.seen t.stack =
          (forM trace fun e => visitor e.1 e.2) >>= fun _ => pure t'.seen := by
  induction fuel generalizing t with
  | zero =>
    exact ⟨0, t, [], .refl t, Or.inr rfl, (List.append_nil _).symm, fun visitor => by
      rw [walkFrom, List.forM_nil, pure_bind]⟩
  | succ fuel ih =>
    obtain ⟨seen, stack, visited⟩ := t
    cases stack with
    | nil =>
      exact ⟨0, _, [], .refl _, Or.inl rfl, (List.append_nil _).symm, fun visitor => by
        rw [walkFrom, List.forM_nil, pure_bind]⟩
    | cons fr rest =>
      obtain ⟨node, ahead⟩ := fr
      cases ahead with
      | nil =>
        obtain ⟨n, t', trace, hruns, hend, hvisited, heq⟩ := ih ⟨seen, rest, visited⟩
        exact ⟨n + 1, t', trace, .head .leave hruns, hend.imp_right (congrArg (· + 1)), hvisited,
          fun visitor => by rw [walkFrom]; exact heq visitor⟩
      | cons callee ahead =>
        by_cases hseen : callee ∈ seen
        · obtain ⟨n, t', trace, hruns, hend, hvisited, heq⟩ :=
            ih ⟨seen, ⟨node, ahead⟩ :: rest, visited ++ [(node, callee)]⟩
          refine ⟨n + 1, t', (node, callee) :: trace, .head (.visit hseen) hruns,
            hend.imp_right (congrArg (· + 1)), by rw [hvisited, List.append_assoc]; rfl, ?_⟩
          intro m _ _ visitor
          rw [walkFrom, if_pos (List.contains_iff_mem.mpr hseen), List.forM_cons, bind_assoc]
          exact congrArg _ (funext fun _ => heq visitor)
        · obtain ⟨n, t', trace, hruns, hend, hvisited, heq⟩ :=
            ih ⟨callee :: seen, ⟨callee, g.callees callee⟩ ::
              ⟨node, callee :: ahead⟩ :: rest, visited⟩
          refine ⟨n + 1, t', trace, .head (.enter hseen) hruns, hend.imp_right (congrArg (· + 1)),
            hvisited, ?_⟩
          intro m _ _ visitor
          rw [walkFrom, if_neg (fun hc => hseen (List.contains_iff_mem.mp hc))]
          exact heq visitor

theorem Runs.lt_walkFuel {g : CallGraph} (hg : g.WellFormed) {n : Nat} {t t' : Tour}
    (h : Runs g n t t') (hs : Sound g t) (hstack : t.stack.length ≤ t.seen.length) :
    n < g.walkFuel := by
  have hcount := h.count
  have hsize := (h.sound hg hs).size_le
  unfold walkFuel
  omega

/-- A walk from some roots calls the visitor on a list of calls. In a well-formed graph the list is
what a tour visits that sees all the roots. -/
theorem exists_trace_walkRoots (g : CallGraph) (roots seen : List FuncId)
    (visited : List (FuncId × FuncId)) :
    ∃ (trace : List (FuncId × FuncId)) (seen' : List FuncId),
      (∀ {m : Type → Type} [Monad m] [LawfulMonad m] (visitor : FuncId → FuncId → m Unit),
        g.walkRoots visitor roots seen =
          (forM trace fun e => visitor e.1 e.2) >>= fun _ => pure seen') ∧
      (g.WellFormed → (∀ f ∈ roots, f ∈ g.nodes) → Sound g ⟨seen, [], visited⟩ →
        (∀ f ∈ roots, f ∈ seen') ∧
          ∃ n, Runs g n ⟨seen, [], visited⟩ ⟨seen', [], visited ++ trace⟩) := by
  induction roots generalizing seen visited with
  | nil =>
    refine ⟨[], seen, fun visitor => by rw [walkRoots, List.forM_nil, pure_bind], fun _ _ _ => ?_⟩
    exact ⟨by simp, 0, by rw [List.append_nil]; exact .refl _⟩
  | cons root roots ih =>
    by_cases hseen : root ∈ seen
    · obtain ⟨trace, seen', heq, htour⟩ := ih seen visited
      refine ⟨trace, seen', fun visitor => ?_, fun hg hroots hs => ?_⟩
      · rw [walkRoots, if_pos (List.contains_iff_mem.mpr hseen)]
        exact heq visitor
      · obtain ⟨hall, n, hruns⟩ := htour hg (List.forall_mem_cons.mp hroots).2 hs
        exact ⟨List.forall_mem_cons.mpr ⟨hruns.seen_subset hseen, hall⟩, n, hruns⟩
    · obtain ⟨n, ⟨seen₁, stack₁, visited₁⟩, trace, hruns, hend, hvisited, hfrom⟩ :=
        g.exists_runs_walkFrom g.walkFuel ⟨root :: seen, [⟨root, g.callees root⟩], visited⟩
      obtain ⟨trace', seen', heq, htour⟩ := ih seen₁ visited₁
      refine ⟨trace ++ trace', seen', fun visitor => ?_, fun hg hroots hs => ?_⟩
      · rw [walkRoots, if_neg (fun hc => hseen (List.contains_iff_mem.mp hc)), hfrom visitor,
          List.forM_append]
        simp only [bind_assoc, pure_bind, heq visitor]
      · obtain ⟨hroot, hrest⟩ := List.forall_mem_cons.mp hroots
        have hstart : Step g ⟨seen, [], visited⟩ ⟨root :: seen,
            [⟨root, g.callees root⟩], visited⟩ :=
          .start hroot hseen
        have hs' := hstart.sound hg hs
        -- the bound was not reached, so nothing is left on the stack and the next root can follow
        have hfuel := hruns.lt_walkFuel hg hs' (by simp)
        obtain rfl : stack₁ = [] := hend.resolve_right (Nat.ne_of_lt hfuel)
        obtain ⟨hall, n', hruns'⟩ := htour hg hrest (hruns.sound hg hs')
        refine ⟨List.forall_mem_cons.mpr ⟨?_, hall⟩, n + 1 + n', ?_⟩
        · exact hruns'.seen_subset (hruns.seen_subset List.mem_cons_self)
        · rw [← List.append_assoc, ← hvisited]
          exact (Runs.head hstart hruns).trans hruns'

/-! ## Recording the walk -/

theorem forM_record_run (trace visited : List (FuncId × FuncId)) :
    (forM trace fun e => record e.1 e.2).run visited = ((), visited ++ trace) := by
  induction trace generalizing visited with
  | nil =>
    rw [List.append_nil]
    rfl
  | cons e trace ih =>
    rw [List.forM_cons, StateT.run_bind]
    exact (ih (visited ++ [e])).trans (by simp)

theorem walk_eq_of_trace {g : CallGraph} {trace : List (FuncId × FuncId)} {seen : List FuncId}
    (heq : g.walkRoots record g.nodes [] =
      (forM trace fun e => record e.1 e.2) >>= fun _ => pure seen) : g.walk = trace := by
  rw [walk, visit, heq, bind_assoc, StateT.run_bind, forM_record_run]
  rfl

/-- **A visitor is called on the calls of the walk, in their order.** If it fails at one of them,
the others are not visited. -/
theorem visit_eq_forM_walk {m : Type → Type} [Monad m] [LawfulMonad m] (g : CallGraph)
    (visitor : FuncId → FuncId → m Unit) :
    g.visit visitor = forM g.walk fun e => visitor e.1 e.2 := by
  obtain ⟨trace, seen, heq, _⟩ := g.exists_trace_walkRoots g.nodes [] []
  rw [walk_eq_of_trace (heq record), visit, heq visitor]
  simp

/-- The walk is a tour from nothing to its end. -/
theorem exists_runs_walk {g : CallGraph} (hg : g.WellFormed) :
    ∃ n t, Runs g n {} t ∧ (∀ t', ¬ Step g t t') ∧ t.visited = g.walk := by
  obtain ⟨trace, seen, heq, htour⟩ := g.exists_trace_walkRoots g.nodes [] []
  obtain ⟨hall, n, hruns⟩ := htour hg (fun f hf => hf) (sound_nil g)
  exact ⟨n, _, hruns, no_step_iff.mpr ⟨rfl, hall⟩, (walk_eq_of_trace (heq record)).symm⟩

/-- **The walk visits every call once.** Of a graph built by any insertions, the calls that a
visitor is called on are those inserted, up to their order. The walk is a tour to its end, and no
tour, from whichever nodes it starts, has more steps than the graph has edges and, twice, nodes. -/
theorem walk_perm_insertions (insertions : List Insertion) :
    (ofInsertions insertions).walk.Perm
        ((insertions.filterMap Insertion.edge?).map fun e => (e.caller, e.callee)) ∧
      (∀ {m : Type → Type} [Monad m] [LawfulMonad m] (visitor : FuncId → FuncId → m Unit),
        (ofInsertions insertions).visit visitor =
          forM (ofInsertions insertions).walk fun e => visitor e.1 e.2) ∧
      (∃ n t, Runs (ofInsertions insertions) n {} t ∧
        (∀ t', ¬ Step (ofInsertions insertions) t t') ∧
          t.visited = (ofInsertions insertions).walk) ∧
      ∀ n t, Runs (ofInsertions insertions) n {} t →
        n ≤ 2 * (ofInsertions insertions).nodes.length +
          (ofInsertions insertions).edges.length := by
  have hg := wellFormed_ofInsertions insertions
  obtain ⟨n, t, hruns, hend, hvisited⟩ := exists_runs_walk hg
  refine ⟨?_, fun visitor => visit_eq_forM_walk _ visitor, ⟨n, t, hruns, hend, hvisited⟩,
    fun n t h => h.le hg⟩
  have hperm := (hruns.sound hg (sound_nil _)).visited_perm hg hend
  rwa [hvisited, calls, ofInsertions_edges] at hperm

/-- A circle of two functions with one call twice, a function that calls itself, and one alone. -/
def knot : List Insertion :=
  [.edge ⟨0, 1, 3⟩, .edge ⟨0, 1, 4⟩, .edge ⟨1, 0, 7⟩, .node 3, .edge ⟨2, 2, 9⟩]

theorem walk_perm_insertions_knot :
    (ofInsertions knot).walk = [(1, 0), (0, 1), (0, 1), (2, 2)] ∧
      (ofInsertions knot).walk.Perm [(0, 1), (0, 1), (1, 0), (2, 2)] ∧
      (ofInsertions knot).visit (fun caller callee => if caller = callee then none else some ()) =
        forM [(1, 0), (0, 1), (0, 1), (2, 2)] (fun e => if e.1 = e.2 then none else some ()) ∧
      ∃ n t, Runs (ofInsertions knot) n {} t ∧ t.visited = (ofInsertions knot).walk ∧ n ≤ 12 := by
  obtain ⟨hperm, hvisit, ⟨n, t, hruns, _, hvisited⟩, hle⟩ := walk_perm_insertions knot
  have hwalk : (ofInsertions knot).walk = [(1, 0), (0, 1), (0, 1), (2, 2)] := by decide
  exact ⟨hwalk, hperm, by rw [hvisit, hwalk], n, t, hruns, hvisited, hle n t hruns⟩

end CallGraph

end CallAtlas
