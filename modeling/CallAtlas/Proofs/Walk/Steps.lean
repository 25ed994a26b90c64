import CallAtlas.Proofs.Graph
import Mathlib.Data.List.Perm.Subperm

/-!
# The walk, step by step

The walk goes down before it visits: the edge to a function that is new stays in front of its
frame, and the function is walked first. So it is not to be seen from one step that the walk ends,
nor that an edge which is looked at twice is visited once. Both follow from what a *tour* knows at
every step (`Sound`): of a function that was seen, the calls visited and the calls ahead are
together its calls, in their order, and of a function that was not seen nothing is visited. As
every step enters a function, leaves one or visits an edge, the number of steps is given by the
tour alone (`Runs.count`).

A step starts at any node that was not seen, so the facts here hold of the walk from the
nodes in any order.
-/

set_option autoImplicit false

namespace CallAtlas.CallGraph

/-! ## Calls by their caller -/

/-- The callees that a function has in a list of calls. -/
def callsOf (calls : List (FuncId × FuncId)) (func : FuncId) : List FuncId :=
  (calls.filter fun e => e.1 == func).map Prod.snd

/-- The callees that a function has ahead on a stack. -/
def aheadOf (stack : List Frame) (func : FuncId) : List FuncId :=
  (stack.filter fun fr => fr.node == func).flatMap Frame.ahead

/-- The calls of a graph without their lines. -/
def calls (g : CallGraph) : List (FuncId × FuncId) := g.edges.map fun e => (e.caller, e.callee)

section Calls

variable {xs ys : List (FuncId × FuncId)} {stack : List Frame} {f : FuncId}

theorem mem_callsOf {callee : FuncId} : callee ∈ callsOf xs f ↔ (f, callee) ∈ xs := by
  simp [callsOf]

@[simp] theorem callsOf_nil : callsOf [] f = [] := rfl

@[simp] theorem callsOf_append : callsOf (xs ++ ys) f = callsOf xs f ++ callsOf ys f := by
  simp [callsOf]

theorem callsOf_cons_self {callee : FuncId} :
    callsOf ((f, callee) :: xs) f = callee :: callsOf xs f := by
  simp [callsOf]

theorem callsOf_cons_of_ne {e : FuncId × FuncId} (h : e.1 ≠ f) :
    callsOf (e :: xs) f = callsOf xs f := by
  simp [callsOf, h]

theorem count_callsOf (caller callee : FuncId) :
    (callsOf xs caller).count callee = xs.count (caller, callee) := by
  induction xs with
  | nil => rfl
  | cons e xs ih =>
    obtain ⟨a, b⟩ := e
    by_cases h : a = caller
    · subst h
      rw [callsOf_cons_self, List.count_cons, List.count_cons, ih]
      simp
    · rw [callsOf_cons_of_ne h, ih, List.count_cons_of_ne (by simp [h])]

@[simp] theorem aheadOf_nil : aheadOf [] f = [] := rfl

theorem aheadOf_cons_self {ahead : List FuncId} :
    aheadOf (⟨f, ahead⟩ :: stack) f = ahead ++ aheadOf stack f := by
  simp [aheadOf]

theorem aheadOf_cons_of_ne {fr : Frame} (h : fr.node ≠ f) :
    aheadOf (fr :: stack) f = aheadOf stack f := by
  simp [aheadOf, h]

theorem aheadOf_eq_nil (h : ∀ fr ∈ stack, fr.node ≠ f) : aheadOf stack f = [] := by
  have hnone : (stack.filter fun fr => fr.node == f) = [] :=
    List.filter_eq_nil_iff.mpr fun fr hfr => by simpa using h fr hfr
  rw [aheadOf, hnone, List.flatMap_nil]

theorem mem_aheadOf {fr : Frame} {callee : FuncId} (hfr : fr ∈ stack) (hc : callee ∈ fr.ahead) :
    callee ∈ aheadOf stack fr.node :=
  List.mem_flatMap.mpr ⟨fr, List.mem_filter.mpr ⟨hfr, by simp⟩, hc⟩

theorem callees_eq_callsOf (g : CallGraph) (f : FuncId) : g.callees f = callsOf g.calls f := by
  simp [callees, callsOf, calls, List.filter_map, Function.comp_def]

end Calls

/-! ## Tours -/

/-- Where a walk stands: the functions seen, the frames on the path to the current one, and
the calls visited. -/
structure Tour where
  seen : List FuncId := []
  stack : List Frame := []
  visited : List (FuncId × FuncId) := []
deriving DecidableEq, Repr, Inhabited

/-- One step of a walk. With nothing on the stack it starts at a node that was not seen. -/
inductive Step (g : CallGraph) : Tour → Tour → Prop where
  | start {seen : List FuncId} {visited : List (FuncId × FuncId)} {root : FuncId}
      (hroot : root ∈ g.nodes) (hnew : root ∉ seen) :
      Step g ⟨seen, [], visited⟩ ⟨root :: seen, [⟨root, g.callees root⟩], visited⟩
  | leave {seen : List FuncId} {visited : List (FuncId × FuncId)} {node : FuncId}
      {rest : List Frame} : Step g ⟨seen, ⟨node, []⟩ :: rest, visited⟩ ⟨seen, rest, visited⟩
  | visit {seen ahead : List FuncId} {visited : List (FuncId × FuncId)} {node callee : FuncId}
      {rest : List Frame} (hseen : callee ∈ seen) :
      Step g ⟨seen, ⟨node, callee :: ahead⟩ :: rest, visited⟩
        ⟨seen, ⟨node, ahead⟩ :: rest, visited ++ [(node, callee)]⟩
  | enter {seen ahead : List FuncId} {visited : List (FuncId × FuncId)} {node callee : FuncId}
      {rest : List Frame} (hnew : callee ∉ seen) :
      Step g ⟨seen, ⟨node, callee :: ahead⟩ :: rest, visited⟩
        ⟨callee :: seen, ⟨callee, g.callees callee⟩ :: ⟨node, callee :: ahead⟩ :: rest, visited⟩

inductive Runs (g : CallGraph) : Nat → Tour → Tour → Prop where
  | refl (t : Tour) : Runs g 0 t t
  | head {n : Nat} {t t' t'' : Tour} (h : Step g t t') (hrest : Runs g n t' t'') :
      Runs g (n + 1) t t''

section Tours

variable {g : CallGraph} {n k : Nat} {t t' t'' : Tour}

theorem Runs.trans (h : Runs g n t t') (h' : Runs g k t' t'') : Runs g (n + k) t t'' := by
  induction h with
  | refl t => rwa [Nat.zero_add]
  | head hstep _ ih =>
    rw [Nat.add_right_comm]
    exact .head hstep (ih h')

theorem Runs.invariant {I : Tour → Prop} (hstep : ∀ t t', Step g t t' → I t → I t')
    (h : Runs g n t t') (ht : I t) : I t' := by
  induction h with
  | refl t => exact ht
  | head h _ ih => exact ih (hstep _ _ h ht)

theorem Step.seen_subset (h : Step g t t') : t.seen ⊆ t'.seen := by
  cases h with
  | start => exact List.subset_cons_self _ _
  | leave => exact List.Subset.refl _
  | visit => exact List.Subset.refl _
  | enter => exact List.subset_cons_self _ _

theorem Runs.seen_subset (h : Runs g n t t') : t.seen ⊆ t'.seen :=
  h.invariant (fun _ _ hstep hsub => List.Subset.trans hsub hstep.seen_subset) (List.Subset.refl _)

-- A function is entered and left once, and an edge is visited once. What stands on the stack was
-- entered and not left, so the number of steps need not be carried along: the two tours tell it.
theorem Runs.count (h : Runs g n t t') :
    n + t'.stack.length + (2 * t.seen.length + t.visited.length) =
      t.stack.length + (2 * t'.seen.length + t'.visited.length) := by
  induction h with
  | refl t => omega
  | head hstep _ ih =>
    cases hstep with
    | start => simp only [List.length_cons, List.length_nil] at ih ⊢; omega
    | leave => simp only [List.length_cons] at ih ⊢; omega
    | visit =>
      simp only [List.length_cons, List.length_append, List.length_nil] at ih ⊢
      omega
    | enter => simp only [List.length_cons] at ih ⊢; omega

/-! ## What a tour knows -/

/-- The functions seen are distinct nodes. Of each, the calls visited and the calls ahead are its
calls; a call that was visited leads to a function seen. -/
structure Sound (g : CallGraph) (t : Tour) : Prop where
  nodup : t.seen.Nodup
  seen_mem : ∀ f ∈ t.seen, f ∈ g.nodes
  stack_seen : ∀ fr ∈ t.stack, fr.node ∈ t.seen
  callee_seen : ∀ e ∈ t.visited, e.2 ∈ t.seen
  calls : ∀ f ∈ t.seen, callsOf t.visited f ++ aheadOf t.stack f = g.callees f
  no_calls : ∀ f, f ∉ t.seen → callsOf t.visited f = []

theorem sound_nil (g : CallGraph) : Sound g {} where
  nodup := List.nodup_nil
  seen_mem _ h := absurd h List.not_mem_nil
  stack_seen _ h := absurd h List.not_mem_nil
  callee_seen _ h := absurd h List.not_mem_nil
  calls _ h := absurd h List.not_mem_nil
  no_calls _ _ := rfl

theorem Sound.mem_callees (hs : Sound g t) {fr : Frame} (hfr : fr ∈ t.stack) {callee : FuncId}
    (hc : callee ∈ fr.ahead) : callee ∈ g.callees fr.node := by
  rw [← hs.calls fr.node (hs.stack_seen fr hfr)]
  exact List.mem_append_right _ (mem_aheadOf hfr hc)

/-- A new function is put on the stack with all its calls ahead. -/
theorem Sound.push {seen : List FuncId} {stack : List Frame} {visited : List (FuncId × FuncId)}
    (hs : Sound g ⟨seen, stack, visited⟩) {func : FuncId} (hnode : func ∈ g.nodes)
    (hnew : func ∉ seen) : Sound g ⟨func :: seen, ⟨func, g.callees func⟩ :: stack, visited⟩ where
  nodup := List.nodup_cons.mpr ⟨hnew, hs.nodup⟩
  seen_mem f hf := by
    rcases List.mem_cons.mp hf with rfl | hf
    · exact hnode
    · exact hs.seen_mem f hf
  stack_seen fr hfr := by
    rcases List.mem_cons.mp hfr with rfl | hfr
    · exact List.mem_cons_self
    · exact List.mem_cons_of_mem _ (hs.stack_seen fr hfr)
  callee_seen e he := List.mem_cons_of_mem _ (hs.callee_seen e he)
  calls f hf := by
    rcases List.mem_cons.mp hf with rfl | hf
    · -- nothing of it is on the stack yet, because all that is there was seen
      have hstack : aheadOf stack f = [] :=
        aheadOf_eq_nil fun fr hfr heq => hnew (heq ▸ hs.stack_seen fr hfr)
      rw [hs.no_calls f hnew, aheadOf_cons_self, hstack, List.nil_append, List.append_nil]
    · rw [aheadOf_cons_of_ne fun (heq : func = f) => hnew (heq ▸ hf)]
      exact hs.calls f hf
  no_calls f hf := hs.no_calls f fun h => hf (List.mem_cons_of_mem _ h)

/-- An edge to a function seen is visited: its callee goes from the calls ahead to those visited. -/
theorem Sound.visit {seen ahead : List FuncId} {rest : List Frame}
    {visited : List (FuncId × FuncId)} {node callee : FuncId}
    (hs : Sound g ⟨seen, ⟨node, callee :: ahead⟩ :: rest, visited⟩) (hseen : callee ∈ seen) :
    Sound g ⟨seen, ⟨node, ahead⟩ :: rest, visited ++ [(node, callee)]⟩ where
  nodup := hs.nodup
  seen_mem := hs.seen_mem
  stack_seen fr hfr := by
    rcases List.mem_cons.mp hfr with rfl | hfr
    · exact hs.stack_seen ⟨node, callee :: ahead⟩ List.mem_cons_self
    · exact hs.stack_seen fr (List.mem_cons_of_mem _ hfr)
  callee_seen e he := by
    rcases List.mem_append.mp he with he | he
    · exact hs.callee_seen e he
    · rw [List.mem_singleton.mp he]
      exact hseen
  calls f hf := by
    have hcalls := hs.calls f hf
    by_cases h : node = f
    · -- the same list, divided one place further on
      subst h
      simpa [aheadOf_cons_self, callsOf_cons_self] using hcalls
    · rw [aheadOf_cons_of_ne h] at hcalls ⊢
      rw [callsOf_append, callsOf_cons_of_ne h, callsOf_nil, List.append_nil, hcalls]
  no_calls f hf := by
    have h : node ≠ f := fun h => hf (h ▸ hs.stack_seen _ List.mem_cons_self)
    rw [callsOf_append, callsOf_cons_of_ne h, hs.no_calls f hf]
    rfl

theorem Sound.pop {seen : List FuncId} {rest : List Frame} {visited : List (FuncId × FuncId)}
    {node : FuncId} (hs : Sound g ⟨seen, ⟨node, []⟩ :: rest, visited⟩) :
    Sound g ⟨seen, rest, visited⟩ where
  nodup := hs.nodup
  seen_mem := hs.seen_mem
  stack_seen fr hfr := hs.stack_seen fr (List.mem_cons_of_mem _ hfr)
  callee_seen := hs.callee_seen
  calls f hf := by
    rw [← hs.calls f hf]
    by_cases h : node = f
    · subst h
      rw [aheadOf_cons_self, List.nil_append]
    · rw [aheadOf_cons_of_ne h]
  no_calls := hs.no_calls

theorem Step.sound (hg : g.WellFormed) (h : Step g t t') (hs : Sound g t) : Sound g t' := by
  cases h with
  | start hroot hnew => exact hs.push hroot hnew
  | leave => exact hs.pop
  | visit hseen => exact hs.visit hseen
  | @enter seen ahead visited node callee rest hnew =>
    have hcalled : callee ∈ g.callees node := hs.mem_callees List.mem_cons_self List.mem_cons_self
    obtain ⟨e, he, rfl⟩ := List.mem_map.mp hcalled
    exact hs.push (hg.callee_mem e (List.mem_of_mem_filter he)) hnew

theorem Runs.sound (hg : g.WellFormed) (h : Runs g n t t') (hs : Sound g t) : Sound g t' :=
  h.invariant (fun _ _ hstep => hstep.sound hg) hs

/-! ## How long a tour is -/

theorem Sound.visited_subperm (hs : Sound g t) : t.visited.Subperm g.calls := by
  rw [List.subperm_ext_iff]
  rintro ⟨caller, callee⟩ _
  rw [← count_callsOf, ← count_callsOf, ← callees_eq_callsOf]
  by_cases hf : caller ∈ t.seen
  · rw [← hs.calls caller hf, List.count_append]
    exact Nat.le_add_right _ _
  · rw [hs.no_calls caller hf, List.count_nil]
    exact Nat.zero_le _

theorem Sound.size_le (hs : Sound g t) :
    2 * t.seen.length + t.visited.length ≤ 2 * g.nodes.length + g.edges.length := by
  have hseen := (List.subperm_of_subset hs.nodup hs.seen_mem).length_le
  have hvisited := hs.visited_subperm.length_le
  rw [CallGraph.calls, List.length_map] at hvisited
  omega

/-- No tour has more steps than a graph has edges and, twice, nodes. -/
theorem Runs.le (hg : g.WellFormed) (h : Runs g n {} t) :
    n ≤ 2 * g.nodes.length + g.edges.length := by
  have hcount := h.count
  have hsize := (h.sound hg (sound_nil g)).size_le
  simp only [List.length_nil] at hcount
  omega

theorem no_step_iff : (∀ t', ¬ Step g t t') ↔ t.stack = [] ∧ ∀ f ∈ g.nodes, f ∈ t.seen := by
  obtain ⟨seen, stack, visited⟩ := t
  constructor
  · intro h
    cases stack with
    | nil => exact ⟨rfl, fun f hf => by_contra fun hnew => h _ (.start hf hnew)⟩
    | cons fr rest =>
      obtain ⟨node, ahead⟩ := fr
      cases ahead with
      | nil => exact absurd .leave (h _)
      | cons callee ahead =>
        by_cases hseen : callee ∈ seen
        · exact absurd (.visit hseen) (h _)
        · exact absurd (.enter hseen) (h _)
  · rintro ⟨rfl, hall⟩ t' hstep
    cases hstep with
    | start hroot hnew => exact hnew (hall _ hroot)

/-- At its end a tour has visited all calls. -/
theorem Sound.callsOf_visited (hg : g.WellFormed) (hs : Sound g t) (hend : ∀ t', ¬ Step g t t')
    (f : FuncId) : callsOf t.visited f = g.callees f := by
  obtain ⟨hstack, hall⟩ := no_step_iff.mp hend
  by_cases hf : f ∈ t.seen
  · rw [← hs.calls f hf, hstack, aheadOf_nil, List.append_nil]
  · have hnone : g.callees f = [] := by
      rw [callees, List.map_eq_nil_iff, List.filter_eq_nil_iff]
      intro e he heq
      exact hf (hall f (beq_iff_eq.mp heq ▸ hg.caller_mem e he))
    rw [hs.no_calls f hf, hnone]

theorem Sound.visited_perm (hg : g.WellFormed) (hs : Sound g t) (hend : ∀ t', ¬ Step g t t') :
    t.visited.Perm g.calls := by
  rw [List.perm_iff_count]
  rintro ⟨caller, callee⟩
  rw [← count_callsOf, ← count_callsOf, hs.callsOf_visited hg hend, callees_eq_callsOf]

end Tours

end CallAtlas.CallGraph
