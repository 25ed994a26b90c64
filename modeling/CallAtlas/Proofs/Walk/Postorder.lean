import CallAtlas.Proofs.Walk.Visit

/-!
# The walk by recursion

The walk keeps a stack of frames, and an edge to a new function is looked at twice. By recursion it
is said in a few words: visit a function by going through its calls in order, and before a call is
emitted visit its callee, unless that was seen. `Emits` is this recursion, and `Postorder` runs it
from every node that was not seen. Every graph that is built from nothing has exactly one such
sequence of calls.

A visitor that fails stops the walk. Main statement: what a visitor does with a state of its own is
what it does on the calls of that sequence, one after another, up to the first that fails.
-/

set_option autoImplicit false

namespace CallAtlas.CallGraph

/-! ## The recursion -/

/-- Going through the callees of `caller` that are ahead emits these calls and takes the
functions seen before to those seen after. A callee that was not seen is seen and visited before
the call is emitted. -/
inductive Emits (g : CallGraph) :
    FuncId → List FuncId → List FuncId → List (FuncId × FuncId) → List FuncId → Prop where
  | nil {caller : FuncId} {seen : List FuncId} : Emits g caller [] seen [] seen
  | again {caller callee : FuncId} {ahead seen seen' : List FuncId} {calls : List (FuncId × FuncId)}
      (hseen : callee ∈ seen) (h : Emits g caller ahead seen calls seen') :
      Emits g caller (callee :: ahead) seen ((caller, callee) :: calls) seen'
  | first {caller callee : FuncId} {ahead seen mid seen' : List FuncId}
      {below calls : List (FuncId × FuncId)} (hnew : callee ∉ seen)
      (hbelow : Emits g callee (g.callees callee) (callee :: seen) below mid)
      (h : Emits g caller ahead mid calls seen') :
      Emits g caller (callee :: ahead) seen (below ++ (caller, callee) :: calls) seen'

/-- The calls that are emitted when each of the roots is visited that was not seen. -/
inductive EmitsAll (g : CallGraph) :
    List FuncId → List FuncId → List (FuncId × FuncId) → List FuncId → Prop where
  | nil {seen : List FuncId} : EmitsAll g [] seen [] seen
  | again {root : FuncId} {roots seen seen' : List FuncId} {calls : List (FuncId × FuncId)}
      (hseen : root ∈ seen) (h : EmitsAll g roots seen calls seen') :
      EmitsAll g (root :: roots) seen calls seen'
  | first {root : FuncId} {roots seen mid seen' : List FuncId}
      {below calls : List (FuncId × FuncId)} (hnew : root ∉ seen)
      (hbelow : Emits g root (g.callees root) (root :: seen) below mid)
      (h : EmitsAll g roots mid calls seen') :
      EmitsAll g (root :: roots) seen (below ++ calls) seen'

/-- The calls in the order of the recursion. -/
def Postorder (g : CallGraph) (calls : List (FuncId × FuncId)) : Prop :=
  ∃ seen, EmitsAll g g.nodes [] calls seen

section Simulation

variable {g : CallGraph} {caller : FuncId} {ahead roots seen seen' : List FuncId}
  {calls : List (FuncId × FuncId)}

theorem Emits.seen_subset (h : Emits g caller ahead seen calls seen') : seen ⊆ seen' := by
  induction h with
  | nil => exact List.Subset.refl _
  | again _ _ ih => exact ih
  | first _ _ _ ihbelow ih =>
    exact List.Subset.trans (List.subset_cons_self _ _) (List.Subset.trans ihbelow ih)

/-! ## The stack does what the recursion says -/

theorem walkFrom_nil {m : Type → Type} [Monad m] (g : CallGraph)
    (visitor : FuncId → FuncId → m Unit) (fuel : Nat) (seen : List FuncId) :
    g.walkFrom visitor fuel seen [] = pure seen := by
  cases fuel <;> rfl

/-- With the recursion for the frame on top, the walk takes the frame off and has called the
visitor on the calls that are emitted. The steps that it takes are those of a tour, which
bounds their number. -/
theorem Emits.exists_runs (h : Emits g caller ahead seen calls seen') (rest : List Frame)
    (visited : List (FuncId × FuncId)) :
    ∃ n, Runs g n ⟨seen, ⟨caller, ahead⟩ :: rest, visited⟩ ⟨seen', rest, visited ++ calls⟩ ∧
      ∀ {m : Type → Type} [Monad m] [LawfulMonad m] (visitor : FuncId →
        FuncId → m Unit) (fuel : Nat),
        g.walkFrom visitor (fuel + n) seen (⟨caller, ahead⟩ :: rest) =
          (forM calls fun e => visitor e.1 e.2) >>= fun _ =>
            g.walkFrom visitor fuel seen' rest := by
  induction h generalizing rest visited with
  | nil =>
    refine ⟨1, ?_, ?_⟩
    · rw [List.append_nil]
      exact .head .leave (.refl _)
    · intro m _ _ visitor fuel
      rw [walkFrom, List.forM_nil, pure_bind]
  | @again caller callee ahead seen seen' calls hseen _ ih =>
    obtain ⟨n, hruns, hwalk⟩ := ih rest (visited ++ [(caller, callee)])
    refine ⟨n + 1, ?_, ?_⟩
    · rw [List.append_assoc] at hruns
      exact .head (.visit hseen) hruns
    · intro m _ _ visitor fuel
      rw [← Nat.add_assoc, walkFrom, if_pos (List.contains_iff_mem.mpr hseen), hwalk visitor fuel,
        List.forM_cons, bind_assoc]
  | @first caller callee ahead seen mid seen' below calls hnew hbelow _ ihbelow ih =>
    obtain ⟨n, hruns, hwalk⟩ := ihbelow (⟨caller, callee :: ahead⟩ :: rest) visited
    obtain ⟨n', hruns', hwalk'⟩ := ih rest (visited ++ below ++ [(caller, callee)])
    -- back at the frame the callee is seen, so that the edge is visited now
    have hseen : callee ∈ mid := hbelow.seen_subset List.mem_cons_self
    refine ⟨n' + 1 + n + 1, ?_, ?_⟩
    · have hall := (Runs.head (.enter hnew) hruns).trans (.head (.visit hseen) hruns')
      rw [List.append_assoc, List.append_assoc] at hall
      rwa [show n' + 1 + n + 1 = n + 1 + (n' + 1) by omega]
    · intro m _ _ visitor fuel
      rw [← Nat.add_assoc, walkFrom, if_neg (fun hc => hnew (List.contains_iff_mem.mp hc)),
        ← Nat.add_assoc, hwalk visitor, ← Nat.add_assoc, walkFrom,
        if_pos (List.contains_iff_mem.mpr hseen), hwalk' visitor fuel, List.forM_append,
        List.forM_cons]
      simp only [bind_assoc]

theorem EmitsAll.walkRoots_eq (hg : g.WellFormed) (h : EmitsAll g roots seen calls seen')
    (hroots : ∀ f ∈ roots, f ∈ g.nodes) {visited : List (FuncId × FuncId)}
    (hs : Sound g ⟨seen, [], visited⟩) {m : Type → Type} [Monad m] [LawfulMonad m]
    (visitor : FuncId → FuncId → m Unit) :
    g.walkRoots visitor roots seen =
      (forM calls fun e => visitor e.1 e.2) >>= fun _ => pure seen' := by
  induction h generalizing visited with
  | nil => rw [walkRoots, List.forM_nil, pure_bind]
  | again hseen _ ih =>
    rw [walkRoots, if_pos (List.contains_iff_mem.mpr hseen)]
    exact ih (List.forall_mem_cons.mp hroots).2 hs
  | @first root roots seen mid seen' below calls hnew hbelow _ ih =>
    obtain ⟨hroot, hrest⟩ := List.forall_mem_cons.mp hroots
    have hs' := (Step.start hroot hnew).sound hg hs
    obtain ⟨n, hruns, hwalk⟩ := hbelow.exists_runs [] visited
    -- the bound on the steps is more than the tour takes
    have hfuel := hruns.lt_walkFuel hg hs' (by simp)
    have hwalk' := hwalk visitor (g.walkFuel - n)
    rw [Nat.sub_add_cancel (Nat.le_of_lt hfuel), walkFrom_nil] at hwalk'
    rw [walkRoots, if_neg (fun hc => hnew (List.contains_iff_mem.mp hc)), hwalk', List.forM_append]
    simp only [bind_assoc, pure_bind]
    rw [ih hrest (hruns.sound hg hs')]

/-! ## The recursion comes to its end -/

theorem Sound.length_seen_le {t : Tour} (hs : Sound g t) : t.seen.length ≤ g.nodes.length :=
  (List.subperm_of_subset hs.nodup hs.seen_mem).length_le

theorem exists_emits (hg : g.WellFormed) (unseen : Nat) {rest : List Frame}
    {visited : List (FuncId × FuncId)} (hs : Sound g ⟨seen, ⟨caller, ahead⟩ :: rest, visited⟩)
    (hbound : g.nodes.length < seen.length + unseen) :
    ∃ calls seen', Emits g caller ahead seen calls seen' := by
  -- a visit of a new function has fewer functions that were not seen, the next call has
  -- fewer calls ahead
  induction unseen generalizing seen caller ahead rest visited with
  | zero =>
    have hlength := hs.length_seen_le
    simp only at hlength
    omega
  | succ unseen ihunseen =>
    induction ahead generalizing seen visited with
    | nil => exact ⟨[], seen, .nil⟩
    | cons callee ahead ih =>
      by_cases hseen : callee ∈ seen
      · obtain ⟨calls, seen', h⟩ := ih ((Step.visit hseen).sound hg hs) hbound
        exact ⟨_, seen', .again hseen h⟩
      · have hs' := (Step.enter hseen).sound hg hs
        obtain ⟨below, mid, hbelow⟩ := ihunseen hs' (by simp only [List.length_cons]; omega)
        obtain ⟨n, hruns, _⟩ := hbelow.exists_runs (⟨caller, callee :: ahead⟩ :: rest) visited
        have hmid := hruns.sound hg hs'
        have hgrows := (List.subperm_of_subset hs.nodup
          (List.Subset.trans (List.subset_cons_self _ _) hbelow.seen_subset)).length_le
        have hcallee : callee ∈ mid := hbelow.seen_subset List.mem_cons_self
        obtain ⟨calls, seen', h⟩ := ih ((Step.visit hcallee).sound hg hmid)
          (Nat.lt_of_lt_of_le hbound (Nat.add_le_add_right hgrows _))
        exact ⟨_, seen', .first hseen hbelow h⟩

theorem exists_emitsAll (hg : g.WellFormed) (hroots : ∀ f ∈ roots, f ∈ g.nodes)
    {visited : List (FuncId × FuncId)} (hs : Sound g ⟨seen, [], visited⟩) :
    ∃ calls seen', EmitsAll g roots seen calls seen' := by
  induction roots generalizing seen visited with
  | nil => exact ⟨[], seen, .nil⟩
  | cons root roots ih =>
    obtain ⟨hroot, hrest⟩ := List.forall_mem_cons.mp hroots
    by_cases hseen : root ∈ seen
    · obtain ⟨calls, seen', h⟩ := ih hrest hs
      exact ⟨calls, seen', .again hseen h⟩
    · have hs' := (Step.start hroot hseen).sound hg hs
      obtain ⟨below, mid, hbelow⟩ := exists_emits hg (g.nodes.length + 1) hs' (Nat.lt_of_lt_of_le
        (Nat.lt_succ_self _) (Nat.le_add_left _ _))
      obtain ⟨n, hruns, _⟩ := hbelow.exists_runs [] visited
      obtain ⟨calls, seen', h⟩ := ih hrest (hruns.sound hg hs')
      exact ⟨_, seen', .first hseen hbelow h⟩

theorem exists_postorder (hg : g.WellFormed) : ∃ calls, g.Postorder calls := by
  obtain ⟨calls, seen, h⟩ := exists_emitsAll hg (List.Subset.refl g.nodes) (sound_nil g)
  exact ⟨calls, seen, h⟩

/-- The recursion has one result, the walk. -/
theorem Postorder.eq_walk (hg : g.WellFormed) (h : g.Postorder calls) : calls = g.walk := by
  obtain ⟨seen, h⟩ := h
  exact (walk_eq_of_trace (h.walkRoots_eq hg (fun f hf => hf) (sound_nil g) record)).symm

end Simulation

/-! ## Visitors that fail -/

section Failure

variable {ε σ : Type} (visitor : FuncId → FuncId → ExceptT ε (StateM σ) Unit)

/-- The visitor accepts the calls one after another and takes the one state to the other. -/
inductive Accepts : σ → List (FuncId × FuncId) → σ → Prop where
  | nil {s : σ} : Accepts s [] s
  | cons {s mid s' : σ} {call : FuncId × FuncId} {calls : List (FuncId × FuncId)}
      (h : (visitor call.1 call.2).run.run s = (.ok (), mid)) (hrest : Accepts mid calls s') :
      Accepts s (call :: calls) s'

/-- The visitor, which also writes down the calls that it is made on. -/
def noting (caller callee : FuncId) : ExceptT ε (StateM (σ × List (FuncId × FuncId))) Unit :=
  fun s =>
    let answer := (visitor caller callee).run.run s.1
    (answer.1, answer.2, s.2 ++ [(caller, callee)])

variable {visitor}

theorem noting_run {caller callee : FuncId} {s s' : σ} {answer : Except ε Unit}
    (h : (visitor caller callee).run.run s = (answer, s')) (noted : List (FuncId × FuncId)) :
    (noting visitor caller callee).run.run (s, noted) =
      (answer, s', noted ++ [(caller, callee)]) := by
  show (((visitor caller callee).run.run s).1, ((visitor caller callee).run.run s).2, _) = _
  rw [h]

theorem Accepts.noting {s s' : σ} {calls : List (FuncId × FuncId)} (h : Accepts visitor s calls s')
    (noted : List (FuncId × FuncId)) :
    Accepts (CallGraph.noting visitor) (s, noted) calls (s', noted ++ calls) := by
  induction h generalizing noted with
  | nil =>
    rw [List.append_nil]
    exact .nil
  | @cons _ _ _ call calls h _ ih =>
    have hrest := ih (noted ++ [call])
    rw [List.append_assoc] at hrest
    exact .cons (noting_run h noted) hrest

theorem Accepts.forM_append_run {s mid : σ} {calls : List (FuncId × FuncId)}
    (h : Accepts visitor s calls mid) (more : List (FuncId × FuncId)) :
    (forM (calls ++ more) fun e => visitor e.1 e.2).run.run s =
      (forM more fun e => visitor e.1 e.2).run.run mid := by
  induction h with
  | nil => rfl
  | cons h _ ih => rw [List.cons_append, List.forM_cons, run_bind_of_ok h, ih]

theorem Accepts.forM_run {s s' : σ} {calls : List (FuncId × FuncId)}
    (h : Accepts visitor s calls s') :
    (forM calls fun e => visitor e.1 e.2).run.run s = (.ok (), s') := by
  have hrun := h.forM_append_run []
  rwa [List.append_nil] at hrun

theorem Accepts.forM_run_error {s mid s' : σ} {before after : List (FuncId × FuncId)}
    {call : FuncId × FuncId} {error : ε} (h : Accepts visitor s before mid)
    (hcall : (visitor call.1 call.2).run.run mid = (.error error, s')) :
    (forM (before ++ call :: after) fun e => visitor e.1 e.2).run.run s = (.error error, s') := by
  rw [h.forM_append_run, List.forM_cons, run_bind_of_error hcall]

/-- The visitor accepts all calls, or there is a first one that it fails on. -/
theorem accepts_or_fails (visitor : FuncId → FuncId → ExceptT ε (StateM σ) Unit) (s : σ)
    (calls : List (FuncId × FuncId)) :
    (∃ s', Accepts visitor s calls s') ∨
      ∃ before call after mid error s', calls = before ++ call :: after ∧
        Accepts visitor s before mid ∧ (visitor call.1 call.2).run.run mid =
          (.error error, s') := by
  induction calls generalizing s with
  | nil => exact Or.inl ⟨s, .nil⟩
  | cons call calls ih =>
    cases hcall : (visitor call.1 call.2).run.run s with
    | mk answer mid =>
      cases answer with
      | error error => exact Or.inr ⟨[], call, calls, s, error, mid, rfl, .nil, hcall⟩
      | ok _ =>
        rcases ih mid with ⟨s', h⟩ | ⟨before, next, after, mid', error, s', rfl, h, herror⟩
        · exact Or.inl ⟨s', .cons hcall h⟩
        · exact Or.inr ⟨call :: before, next, after, mid', error, s', rfl, .cons hcall h, herror⟩

end Failure

/-- **The walk is the recursion, also where it fails.** A graph built by any insertions has exactly
one sequence of calls in the order of the recursion. A visitor with a state of its own accepts all
of them, and then the walk succeeds and has called it on all; or there is a first call on which it
fails, and then the walk returns that error, with the state in which the visitor left it, and has
called it on the calls up to that one and on no others. -/
theorem visit_folds_postorder (insertions : List Insertion) :
    ∃ calls, (ofInsertions insertions).Postorder calls ∧
      (∀ calls', (ofInsertions insertions).Postorder calls' → calls' = calls) ∧
      ∀ {ε σ : Type} (visitor : FuncId → FuncId → ExceptT ε (StateM σ) Unit) (s : σ),
        (∃ s', Accepts visitor s calls s' ∧
          ((ofInsertions insertions).visit visitor).run.run s = (.ok (), s') ∧
          ((ofInsertions insertions).visit (noting visitor)).run.run (s, []) =
            (.ok (), s', calls)) ∨
        ∃ before call after mid error s', calls = before ++ call :: after ∧
          Accepts visitor s before mid ∧ (visitor call.1 call.2).run.run mid = (.error error, s') ∧
          ((ofInsertions insertions).visit visitor).run.run s = (.error error, s') ∧
          ((ofInsertions insertions).visit (noting visitor)).run.run (s, []) =
            (.error error, s', before ++ [call]) := by
  have hg := wellFormed_ofInsertions insertions
  obtain ⟨calls, hcalls⟩ := exists_postorder hg
  have hwalk := hcalls.eq_walk hg
  refine ⟨calls, hcalls, fun calls' h => (h.eq_walk hg).trans hwalk.symm, ?_⟩
  intro ε σ visitor s
  rw [visit_eq_forM_walk, visit_eq_forM_walk, ← hwalk]
  rcases accepts_or_fails visitor s calls with
    ⟨s', h⟩ | ⟨before, call, after, mid, error, s', rfl, h, hcall⟩
  · exact Or.inl ⟨s', h, h.forM_run, (h.noting []).forM_run⟩
  · refine Or.inr ⟨before, call, after, mid, error, s', rfl, h, hcall, h.forM_run_error hcall, ?_⟩
    exact (h.noting []).forM_run_error (noting_run hcall before)

/-- Counts the calls and fails where a function calls itself. -/
def countUntilSelf (caller callee : FuncId) : ExceptT String (StateM Nat) Unit := fun n =>
  if caller = callee then (.error s!"{caller} calls itself", n) else (.ok (), n + 1)

/-- On `knot` the visitor accepts a circle and a call that comes twice, and fails at the last
call. -/
theorem visit_folds_postorder_knot :
    ∃ mid error s', (ofInsertions knot).Postorder ([(1, 0), (0, 1), (0, 1)] ++ [(2, 2)]) ∧
      Accepts countUntilSelf 0 [(1, 0), (0, 1), (0, 1)] mid ∧
      (countUntilSelf 2 2).run.run mid = (.error error, s') ∧
      ((ofInsertions knot).visit countUntilSelf).run.run 0 = (.error error, s') := by
  obtain ⟨calls, hcalls, _, hvisit⟩ := visit_folds_postorder knot
  have hnoted : ((ofInsertions knot).visit (noting countUntilSelf)).run.run (0, []) =
      (.error "2 calls itself", 3, [(1, 0), (0, 1), (0, 1)] ++ [(2, 2)]) := rfl
  rcases hvisit countUntilSelf 0 with
    ⟨_, _, _, hok⟩ | ⟨before, call, after, mid, error, s', rfl, haccepts, hcall, hfails, herror⟩
  · rw [hnoted] at hok
    cases hok
  · rw [hnoted] at herror
    obtain ⟨rfl, hlast⟩ := List.append_inj' (Prod.mk.inj (Prod.mk.inj herror).2).2 rfl
    obtain rfl := (List.cons.inj hlast).1
    -- all calls are noted, so none is behind the one that fails
    have hlength := congrArg List.length (hcalls.eq_walk (wellFormed_ofInsertions knot))
    obtain rfl : after = [] := List.eq_nil_of_length_eq_zero (by
      rw [show (ofInsertions knot).walk.length = 4 by decide] at hlength
      simpa using hlength)
    exact ⟨mid, error, s', hcalls, haccepts, hcall, hfails⟩

end CallAtlas.CallGraph
