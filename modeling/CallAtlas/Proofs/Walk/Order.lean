import CallAtlas.Proofs.Walk.Visit
import Mathlib.Data.List.Chain
import Mathlib.Logic.Relation

/-!
# In which order the walk visits

An edge comes after the calls of its callee, and after all that these lead to, unless its callee
leads back to its caller. The reason is where a function stands that was seen. Either it is on the
stack, and then it leads to the function on top (`leads_top`), or it is done: its calls are visited,
and as they lead to functions seen, whatever it leads to is done as well, or on the stack
(`Sound.done_of_leads`). So at the moment when an edge is visited, a callee that does not lead back
is done with everything below it. `Ordered` keeps that moment for all edges visited so far.
-/

set_option autoImplicit false

namespace CallAtlas.CallGraph

/-- There is a call from one function to another. -/
def Calls (g : CallGraph) (caller callee : FuncId) : Prop := callee ∈ g.callees caller

/-- Calls lead from one function to another, or they are the same. -/
def Leads (g : CallGraph) : FuncId → FuncId → Prop := Relation.ReflTransGen g.Calls

/-- Each frame stands on the frame of a function that calls it next. -/
def Stacked (stack : List Frame) : Prop :=
  stack.IsChain fun inner outer => outer.ahead.head? = some inner.node

section Order

variable {g : CallGraph} {t t' : Tour}

/-! ## The stack is a path -/

theorem leads_top {top : Frame} {rest : List Frame} (hpath : Stacked (top :: rest))
    (hcalls : ∀ fr ∈ top :: rest, ∀ callee ∈ fr.ahead, g.Calls fr.node callee) :
    ∀ fr ∈ top :: rest, g.Leads fr.node top.node := by
  induction rest generalizing top with
  | nil =>
    intro fr hfr
    rw [List.mem_singleton.mp hfr]
    exact .refl
  | cons next rest ih =>
    intro fr hfr
    rcases List.mem_cons.mp hfr with rfl | hfr
    · exact .refl
    · obtain ⟨hhead, hrest⟩ := List.isChain_cons_cons.mp hpath
      have hnext : g.Calls next.node top.node :=
        hcalls next (by simp) top.node (List.mem_of_mem_head? hhead)
      exact (ih hrest (fun fr hfr => hcalls fr (List.mem_cons_of_mem _ hfr)) fr hfr).tail hnext

theorem Step.stacked (h : Step g t t') (hpath : Stacked t.stack) : Stacked t'.stack := by
  cases h with
  | start => exact .singleton _
  | leave => exact List.IsChain.tail hpath
  | @visit seen ahead visited node callee rest =>
    cases rest with
    | nil => exact .singleton _
    | cons next rest => exact List.isChain_cons_cons.mpr (List.isChain_cons_cons.mp hpath)
  | enter => exact List.isChain_cons_cons.mpr ⟨rfl, hpath⟩

/-! ## Functions that are done -/

/-- When a call to a function seen comes up and the function does not lead back to the caller, all
calls of whatever it leads to are visited. -/
theorem Sound.done_of_leads (hs : Sound g t) (hpath : Stacked t.stack) {top : Frame}
    {rest : List Frame} (hstack : t.stack = top :: rest) {callee w : FuncId}
    (hseen : callee ∈ t.seen)
    (hback : ¬ g.Leads callee top.node) (hw : g.Leads callee w) :
    callsOf t.visited w = g.callees w := by
  have htop : ∀ fr ∈ t.stack, g.Leads fr.node top.node := by
    intro fr hfr
    refine leads_top (hstack ▸ hpath) ?_ fr (hstack ▸ hfr)
    intro fr hfr callee hc
    exact hs.mem_callees (hstack ▸ hfr) hc
  have hahead : ∀ w, g.Leads callee w → aheadOf t.stack w = [] := by
    intro w hw
    exact aheadOf_eq_nil fun fr hfr heq => hback (hw.trans (heq ▸ htop fr hfr))
  have hdone : ∀ w, g.Leads callee w → w ∈ t.seen → callsOf t.visited w = g.callees w := by
    intro w hw hwseen
    rw [← hs.calls w hwseen, hahead w hw, List.append_nil]
  -- along the calls from `callee`, what is done leads to functions seen
  have hseen' : ∀ w, g.Leads callee w → w ∈ t.seen := by
    intro w hw
    induction hw with
    | refl => exact hseen
    | @tail x y hx hxy ih =>
      have hvisited : y ∈ callsOf t.visited x := by
        rw [hdone x hx ih]
        exact hxy
      exact hs.callee_seen (x, y) (mem_callsOf.mp hvisited)
  exact hdone w hw (hseen' w hw)

/-! ## The order of the calls visited -/

/-- Before a call whose callee does not lead back, all calls of what the callee leads to are
visited. -/
def CalleesFirst (g : CallGraph) (visited : List (FuncId × FuncId)) : Prop :=
  ∀ before u v after, visited = before ++ (u, v) :: after → ¬ g.Leads v u → ∀ w, g.Leads v w →
    callsOf before w = g.callees w

theorem CalleesFirst.concat {visited : List (FuncId × FuncId)} (h : g.CalleesFirst visited)
    {caller callee : FuncId} (hlast : ¬ g.Leads callee caller → ∀ w, g.Leads callee w →
      callsOf visited w = g.callees w) : g.CalleesFirst (visited ++ [(caller, callee)]) := by
  intro before u v after heq
  -- the call in question is the last one, or it was there before
  rcases List.eq_nil_or_concat after with rfl | ⟨after, e, rfl⟩
  · obtain ⟨rfl, hpair⟩ := List.append_inj' heq rfl
    obtain ⟨rfl, rfl⟩ := Prod.mk.inj (List.cons.inj hpair).1
    exact hlast
  · have heq' : visited ++ [(caller, callee)] = (before ++ (u, v) :: after) ++ [e] := by
      simpa using heq
    exact h before u v after (List.append_inj' heq' rfl).1

structure Ordered (g : CallGraph) (t : Tour) : Prop where
  sound : Sound g t
  stacked : Stacked t.stack
  first : g.CalleesFirst t.visited

theorem Step.ordered (hg : g.WellFormed) (h : Step g t t') (ho : Ordered g t) : Ordered g t' := by
  refine ⟨h.sound hg ho.sound, h.stacked ho.stacked, ?_⟩
  cases h with
  | start => exact ho.first
  | leave => exact ho.first
  | visit hseen =>
    exact ho.first.concat fun hback w hw => ho.sound.done_of_leads ho.stacked rfl hseen hback hw
  | enter => exact ho.first

theorem Runs.ordered (hg : g.WellFormed) {n : Nat} (h : Runs g n {} t) : Ordered g t := by
  refine h.invariant (fun _ _ hstep => hstep.ordered hg) ⟨sound_nil g, .nil, ?_⟩
  intro before u v after heq
  exact absurd heq (by simp)

end Order

/-- **The calls of a callee come first.** Every call of a graph built by any insertions is visited,
and when a call whose callee does not lead back is visited, all calls of the functions that the
callee leads to, itself among them, have been visited before, and none of them comes after. -/
theorem walk_callees_first (insertions : List Insertion) :
    (∀ e ∈ (ofInsertions insertions).edges, (e.caller, e.callee) ∈ (ofInsertions insertions).walk) ∧
      ∀ before u v after, (ofInsertions insertions).walk = before ++ (u, v) :: after →
        ¬ (ofInsertions insertions).Leads v u → ∀ w, (ofInsertions insertions).Leads v w →
          callsOf before w = (ofInsertions insertions).callees w ∧ ∀ e ∈ after, e.1 ≠ w := by
  have hg := wellFormed_ofInsertions insertions
  obtain ⟨n, t, hruns, hend, hvisited⟩ := exists_runs_walk hg
  have ho := hruns.ordered hg
  have hall := ho.sound.callsOf_visited hg hend
  rw [hvisited] at hall
  refine ⟨fun e he => ?_, fun before u v after heq hback w hw => ?_⟩
  · rw [← mem_callsOf, hall, callees_eq_callsOf, mem_callsOf]
    exact List.mem_map_of_mem he
  · have hbefore := ho.first before u v after (hvisited.trans heq) hback w hw
    refine ⟨hbefore, fun e he hew => ?_⟩
    -- all calls of `w` are before, so there is no room for one more
    have hlen := congrArg List.length (hall w)
    rw [heq, callsOf_append, hbefore, List.length_append] at hlen
    have hnone : callsOf ((u, v) :: after) w = [] := List.length_eq_zero_iff.mp (by omega)
    have hmem : e.2 ∈ callsOf ((u, v) :: after) w :=
      mem_callsOf.mpr (List.mem_cons_of_mem _ (hew ▸ he))
    rw [hnone] at hmem
    exact absurd hmem List.not_mem_nil

/-- A function calls another one twice, below which two functions call each other. -/
def loopBelow : List Insertion :=
  [.edge ⟨0, 1, 3⟩, .edge ⟨0, 1, 4⟩, .edge ⟨1, 2, 7⟩, .edge ⟨2, 1, 9⟩, .edge ⟨2, 3, 10⟩]

theorem not_leads_loopBelow : ¬ (ofInsertions loopBelow).Leads 1 0 := by
  have hclosed : ∀ w, (ofInsertions loopBelow).Leads 1 w → w ∈ [1, 2, 3] := by
    intro w hw
    induction hw with
    | refl => decide
    | tail _ hcall ih =>
      have hstep : ∀ x ∈ [1, 2, 3], ∀ y ∈ (ofInsertions loopBelow).callees x, y ∈ [1, 2, 3] := by
        decide
      exact hstep _ ih _ hcall
  exact fun h => absurd (hclosed 0 h) (by decide)

theorem walk_callees_first_loopBelow :
    (ofInsertions loopBelow).walk = [(2, 1), (2, 3), (1, 2)] ++ (0, 1) :: [(0, 1)] ∧
      ¬ (ofInsertions loopBelow).Leads 1 0 ∧ (ofInsertions loopBelow).Leads 1 2 ∧
      callsOf [(2, 1), (2, 3), (1, 2)] 2 = (ofInsertions loopBelow).callees 2 ∧
      ∀ e ∈ [((0, 1) : FuncId × FuncId)], e.1 ≠ 2 := by
  have hwalk : (ofInsertions loopBelow).walk = [(2, 1), (2, 3), (1, 2)] ++ (0, 1) :: [(0, 1)] := by
    decide
  have hleads : (ofInsertions loopBelow).Leads 1 2 :=
    .single (show 2 ∈ (ofInsertions loopBelow).callees 1 by decide)
  exact ⟨hwalk, not_leads_loopBelow, hleads,
    (walk_callees_first loopBelow).2 _ 0 1 _ hwalk not_leads_loopBelow 2 hleads⟩

end CallAtlas.CallGraph
