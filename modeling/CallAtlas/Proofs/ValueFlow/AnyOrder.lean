import CallAtlas.Proofs.ValueFlow.Solve
import Mathlib.Data.Set.Basic
import Mathlib.Order.Bounds.Defs

/-!
# The order of the looks does not matter

A flow graph is built by connecting flows, and then slots are looked at until the queue is empty.
The queue is served from the front, but it could be served in any other way: however the next slot
is chosen and in whichever order its arcs are followed, the looks come to an end, and the atoms in
the slots are then the same. They are the least that every arc can be satisfied with.
-/

set_option autoImplicit false

namespace CallAtlas.FlowGraph

/-- The graph of some flows. -/
def ofFlows (flows : List Flow) : FlowGraph := flows.foldl connect {}

theorem proper_ofFlows (flows : List Flow) : (ofFlows flows).Proper :=
  (foldl_connect_spec flows).2.2

theorem mem_atoms_ofFlows {flows : List Flow} {slot : Slot} {a : Atom} :
    a ∈ (ofFlows flows).atoms slot ↔ ∃ flow ∈ flows, flow.sink = slot ∧ a ∈ flow.source.atoms := by
  rw [ofFlows, (foldl_connect_spec flows).1]
  simp only [eq_comm]

theorem mem_arcs_ofFlows {flows : List Flow} {x y : Slot} :
    (x, y) ∈ (ofFlows flows).arcs ↔ x ≠ y ∧ ∃ flow ∈ flows, flow.sink = y ∧
      x ∈ flow.source.slots := by
  rw [ofFlows, (foldl_connect_spec flows).2.1]
  constructor
  · rintro ⟨flow, hflow, source, hsource, hne, heq⟩
    obtain ⟨rfl, rfl⟩ := Prod.mk.inj heq
    exact ⟨hne, flow, hflow, rfl, hsource⟩
  · rintro ⟨hne, flow, hflow, rfl, hx⟩
    exact ⟨flow, hflow, x, hx, hne, rfl⟩

/-- The sets hold the atoms that were put into the slots, and what is in a slot is in all slots to
which its arcs lead. -/
structure Closed (g : FlowGraph) (sets : Slot → Set Atom) : Prop where
  initial : ∀ slot, ∀ a ∈ g.atoms slot, a ∈ sets slot
  arcs : ∀ arc ∈ g.arcs, sets arc.1 ⊆ sets arc.2

theorem Closed.mem_of_reaches {g : FlowGraph} {sets : Slot → Set Atom}
    (h : g.Closed sets) {a : Atom} {slot : Slot} (hreaches : g.Reaches a slot) : a ∈ sets slot := by
  obtain ⟨origin, horigin, hleads⟩ := hreaches
  induction hleads with
  | refl => exact h.initial origin a horigin
  | tail _ harc ih => exact h.arcs _ harc ih

theorem closed_reaches (g : FlowGraph) : g.Closed fun slot => { a | g.Reaches a slot } where
  initial slot a ha := ⟨slot, ha, .refl⟩
  arcs arc harc a ha := by
    obtain ⟨origin, horigin, hleads⟩ := ha
    exact ⟨origin, horigin, hleads.tail harc⟩

/-- **The solution is the least one, in whatever order slots are looked at.** In the graph of any
flows an atom is at first in the sinks of the flows that bring it, and there is an arc to the sink
of a flow from each other slot that the flow reads. The solution has in every slot exactly the atoms
that were at first in some slot from which arcs lead there, in no step or in any number of them;
this is the least that holds the first atoms and satisfies all arcs. It is reached by looking at
slots until the queue is empty. And so it is if the queue is served in any order: there are fewer
looks than a fixed number, a look is possible until the queue is empty, and then the slots hold what
they hold in the solution. -/
theorem solve_least_in_any_order (flows : List Flow) :
    (∀ slot a, a ∈ (ofFlows flows).atoms slot ↔
      ∃ flow ∈ flows, flow.sink = slot ∧ a ∈ flow.source.atoms) ∧
    (∀ x y, (x, y) ∈ (ofFlows flows).arcs ↔
      x ≠ y ∧ ∃ flow ∈ flows, flow.sink = y ∧ x ∈ flow.source.slots) ∧
    (∀ slot a, a ∈ (ofFlows flows).solve.atoms slot ↔ ∃ origin, a ∈ (ofFlows flows).atoms origin ∧
      Relation.ReflTransGen (fun x y => (x, y) ∈ (ofFlows flows).arcs) origin slot) ∧
    IsLeast { sets | (ofFlows flows).Closed sets }
      (fun slot => { a | a ∈ (ofFlows flows).solve.atoms slot }) ∧
    (∃ n, Looks n (ofFlows flows, (ofFlows flows).occupied) ((ofFlows flows).solve, [])) ∧
    ∀ queue, queue.Perm (ofFlows flows).occupied → ∀ n t, Looks n (ofFlows flows, queue) t →
      n < (ofFlows flows).solveFuel ∧
      (t.2 ≠ [] → ∃ t', Look t t') ∧
      (t.2 = [] → ∀ slot a, a ∈ t.1.atoms slot ↔ a ∈ (ofFlows flows).solve.atoms slot) := by
  have hproper := proper_ofFlows flows
  have hsolve : ∀ slot a, a ∈ (ofFlows flows).solve.atoms slot ↔ (ofFlows flows).Reaches a slot :=
    fun slot a => mem_atoms_solve hproper
  have hsets : (fun slot => { a | a ∈ (ofFlows flows).solve.atoms slot }) =
      fun slot => { a | (ofFlows flows).Reaches a slot } :=
    funext fun slot => Set.ext fun a => hsolve slot a
  refine ⟨fun slot a => mem_atoms_ofFlows, fun x y => mem_arcs_ofFlows, hsolve, ⟨?_, ?_⟩,
    hproper.looks_solve, ?_⟩
  · rw [hsets]
    exact closed_reaches _
  · rw [hsets]
    intro sets hclosed slot a ha
    exact hclosed.mem_of_reaches ha
  · intro queue hqueue n t hlooks
    obtain ⟨hsettles, hfuel⟩ := hlooks.lt_solveFuel hproper hqueue
    refine ⟨hfuel, fun hne => exists_look hne, fun hempty slot a => ?_⟩
    rw [hempty] at hsettles
    rw [hsettles.mem_atoms, hsolve]

/-- A circle of two variables with a function in one and a type in the other, and a result that
reads one of them. -/
def circle : List Flow :=
  [⟨{ slots := [.localVar 0 "y"], atoms := [.func 1] }, .localVar 0 "x"⟩,
   ⟨{ slots := [.localVar 0 "x", .localVar 0 "y"], atoms := [.type 2] }, .localVar 0 "y"⟩,
   ⟨.slot (.localVar 0 "x"), .result 0 0⟩]

theorem solve_least_in_any_order_circle :
    (ofFlows circle).occupied = [.localVar 0 "x", .localVar 0 "y"] ∧
    (ofFlows circle).solve.atoms (.result 0 0) = [.func 1, .type 2] ∧
    ∃ n t, Looks n (ofFlows circle, [.localVar 0 "y", .localVar 0 "x"]) (t, []) ∧
      n < (ofFlows circle).solveFuel ∧
      ∀ a, a ∈ t.atoms (.result 0 0) ↔ a = .func 1 ∨ a = .type 2 := by
  have hevaluated : (ofFlows circle).occupied = [.localVar 0 "x", .localVar 0 "y"] ∧
      (ofFlows circle).solve.atoms (.result 0 0) = [.func 1, .type 2] := by
    decide
  obtain ⟨_, _, _, _, _, horders⟩ := solve_least_in_any_order circle
  have hqueue : [.localVar 0 "y", .localVar 0 "x"].Perm (ofFlows circle).occupied := by
    rw [hevaluated.1]
    exact List.Perm.swap _ _ _
  obtain ⟨n, rest, hlooks, hend⟩ := exists_looks_drain (ofFlows circle).solveFuel (ofFlows circle)
    [.localVar 0 "y", .localVar 0 "x"]
  obtain ⟨hfuel, _, hatoms⟩ := horders _ hqueue n _ hlooks
  obtain rfl := hend.resolve_right (Nat.ne_of_lt hfuel)
  refine ⟨hevaluated.1, hevaluated.2, n, _, hlooks, hfuel, fun a => ?_⟩
  rw [hatoms rfl, hevaluated.2]
  simp

end CallAtlas.FlowGraph
