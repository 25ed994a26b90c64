import CallAtlas.Proofs.Resolve.Wrappers
import CallAtlas.Proofs.ValueFlow.Targets

/-!
# The flow of values ends at a wrapper

A method value, a method on a type and a generic function are called through a wrapper. The
arguments of such a call flow into the parameters of the wrapper, and the results of the call come
from the results of the wrapper. To see through it, what reaches a parameter of the wrapper would
have to reach the parameter of the target that it stands for, and what reaches a result of the
target would have to reach that of the wrapper (`SeesThrough`).

The wrapper passes nothing on. Its own call has no receiver and no arguments, and what that call
returns is not returned. So a parameter of a wrapper is a dead end and its results are empty. The
wrapper is seen through only where there is nothing to see: the target returns no value that is
followed, and whatever comes to the wrapper comes to the target some other way as well.
-/

set_option autoImplicit false

namespace CallAtlas.Program

variable {p : Program}

/-- The slot of the target that a parameter of the wrapper stands for. A method that is taken from
its type has the receiver as its first parameter. -/
def standsFor (f : Function) (target : FuncId) (g : Function) (i : Nat) : Slot :=
  if f.kind = .thunk then
    match i with
    | 0 => .localVar target g.receiverKey
    | i + 1 => .localVar target (g.paramKey i)
  else .localVar target (g.paramKey i)

/-- In the solution, what is in a parameter of the wrapper is in that of the target, and what is in
a result of the target is in that of the wrapper. -/
structure SeesThrough (p : Program) (wrapper : FuncId) (f : Function) (target : FuncId)
    (g : Function) : Prop where
  params : ∀ i < f.signature.params.length,
    p.flowGraph.solve.atoms (.localVar wrapper (f.paramKey i)) ⊆
      p.flowGraph.solve.atoms (standsFor f target g i)
  results : ∀ i, p.flowGraph.solve.atoms (.result target i) ⊆
    p.flowGraph.solve.atoms (.result wrapper i)

/-- The atom reaches the slot along flows of which none begins at a variable of the function. -/
def ReachesApart (p : Program) (func : FuncId) (a : Atom) (slot : Slot) : Prop :=
  ∃ source entry, p.HasFlow source entry ∧ a ∈ source.atoms ∧
    Relation.ReflTransGen (fun x y => p.Feeds x y ∧ ∀ name, x ≠ .localVar func name) entry slot

/-! ## Where flows begin and end -/

theorem owns_factsOf (hp : p.WrapsOnly) (func : FuncId) : p.Owns (p.factsOf func) :=
  factsOf_of_forall hp.owns ⟨by simp [Facts.origins], by simp⟩ func

/-- A flow from a local variable is a flow from one of a function with a body. -/
theorem HasFlow.hasBody_of_localVar (hp : p.WrapsOnly) {source : Origin} {sink : Slot}
    {func : FuncId} {name : String} (h : p.HasFlow source sink)
    (hslot : .localVar func name ∈ source.slots) : p.HasBody func := by
  -- what a call passes on, arguments and receiver, is written at the site, in the caller's body
  have hcalled : ∀ {caller index site callee f}, p.MayCall caller index site callee f →
      source ∈ site.origins → p.HasBody func := by
    intro caller index site callee f call hsource
    have hsite := List.mem_of_getElem? call.made
    have horigin : source ∈ (p.factsOf caller).origins :=
      List.mem_append_right _ (List.mem_flatMap.mpr ⟨site, hsite, hsource⟩)
    exact (owns_factsOf hp caller).vars source horigin func name hslot
  cases h with
  | @recorded caller flow h =>
    have horigin : flow.source ∈ (p.factsOf caller).origins :=
      List.mem_append_left _ (List.mem_map_of_mem h)
    exact (owns_factsOf hp caller).vars _ horigin func name hslot
  | argument call harg _ =>
    exact hcalled call (by simp [CallSite.origins, List.mem_of_getElem? harg])
  | receiver call hrecv _ => exact hcalled call (by simp [CallSite.origins, hrecv])
  | result call _ => exact absurd (List.mem_singleton.mp hslot) (by simp)

/-- Only the body of a function lets values flow into its results. -/
theorem HasFlow.hasBody_of_result (hp : p.WrapsOnly) {source : Origin} {func : FuncId} {i : Nat}
    (h : p.HasFlow source (.result func i)) : p.HasBody func := by
  generalize hsink : Slot.result func i = sink at h
  cases h with
  | recorded h => exact (owns_factsOf hp _).results _ h func i hsink.symm
  | argument => cases hsink
  | receiver => cases hsink
  | result => cases hsink

/-! ## Wrappers -/

section Wrapper

variable (hp : p.WrapsOnly) {wrapper : FuncId} {f : Function} (hf : p.functions[wrapper]? = some f)
  (hkind : f.kind.isWrapper = true)
include hp hf hkind

theorem not_hasBody_wrapper : ¬ p.HasBody wrapper := by
  rintro ⟨g, hg, hbody⟩
  obtain rfl : f = g := Option.some.inj (hf.symm.trans hg)
  simp [(hp.wrapper wrapper f hf hkind).1] at hbody

theorem not_feeds_wrapper (name : String) (slot : Slot) :
    ¬ p.Feeds (.localVar wrapper name) slot := by
  rintro ⟨source, hflow, hslot⟩
  exact not_hasBody_wrapper hp hf hkind (hflow.hasBody_of_localVar hp hslot)

/-- Every way to a slot keeps apart from the wrapper, since there is none through it. -/
theorem reachesApart_of_reachesSlot {a : Atom} {slot : Slot} (h : p.ReachesSlot a slot) :
    p.ReachesApart wrapper a slot := by
  obtain ⟨source, entry, hflow, ha, hpath⟩ := h
  refine ⟨source, entry, hflow, ha,
    Relation.ReflTransGen.mono (fun x y hfeeds => ⟨hfeeds, ?_⟩) entry slot hpath⟩
  rintro name rfl
  exact not_feeds_wrapper hp hf hkind name y hfeeds

theorem not_reachesSlot_result_wrapper (a : Atom) (i : Nat) :
    ¬ p.ReachesSlot a (.result wrapper i) := by
  rintro ⟨source, entry, hflow, _, hpath⟩
  have hlast : ∃ source, p.HasFlow source (.result wrapper i) := by
    rcases Relation.ReflTransGen.cases_tail hpath with heq | ⟨x, _, source', hflow', _⟩
    · exact ⟨source, heq ▸ hflow⟩
    · exact ⟨source', hflow'⟩
  obtain ⟨source', hflow'⟩ := hlast
  exact not_hasBody_wrapper hp hf hkind (hflow'.hasBody_of_result hp)

end Wrapper

theorem ReachesApart.reachesSlot {func : FuncId} {a : Atom} {slot : Slot}
    (h : p.ReachesApart func a slot) : p.ReachesSlot a slot := by
  obtain ⟨source, entry, hflow, ha, hpath⟩ := h
  exact ⟨source, entry, hflow, ha,
    Relation.ReflTransGen.mono (fun x y hstep => hstep.1) entry slot hpath⟩

/-- **Main statement**: in a program that loads, a wrapper makes one call to its target and passes
nothing. No value flows from its parameters and none is in its results. So it is seen through
exactly if no value is in a result of the target, and whatever is in a parameter of the wrapper
reaches the parameter of the target without it. -/
theorem wrapper_seesThrough_iff {d : Disk} {platform : Build.Platform} {module : Module}
    {start : String} (hload : d.loadProgram platform module start = .ok p) {wrapper : FuncId}
    {f : Function} (hf : p.functions[wrapper]? = some f) (hkind : f.kind.isWrapper = true) :
    ∃ target g, p.functions[target]? = some g ∧ p.factsOf wrapper = .calling target ∧
      (∀ name slot, ¬ p.Feeds (.localVar wrapper name) slot) ∧
      (∀ i, p.flowGraph.solve.atoms (.result wrapper i) = []) ∧
      (p.SeesThrough wrapper f target g ↔
        (∀ i, p.flowGraph.solve.atoms (.result target i) = []) ∧
        ∀ i < f.signature.params.length,
          ∀ a ∈ p.flowGraph.solve.atoms (.localVar wrapper (f.paramKey i)),
            p.ReachesApart wrapper a (standsFor f target g i)) := by
  have hp := Disk.loadProgram_wrapsOnly hload
  obtain ⟨_, target, hlt, hcalls⟩ := hp.wrapper wrapper f hf hkind
  have hempty : ∀ i, p.flowGraph.solve.atoms (.result wrapper i) = [] := by
    intro i
    refine List.eq_nil_iff_forall_not_mem.mpr fun a ha => ?_
    exact not_reachesSlot_result_wrapper hp hf hkind a i (mem_atoms_solution.mp ha)
  refine ⟨target, p.functions[target], List.getElem?_eq_getElem hlt, by simp [factsOf, hcalls],
    not_feeds_wrapper hp hf hkind, hempty, fun h => ⟨fun i => ?_, fun i hi a ha => ?_⟩,
    fun h => ⟨fun i hi a ha => ?_, fun i a ha => ?_⟩⟩
  · exact List.subset_nil.mp (hempty i ▸ h.results i)
  · exact reachesApart_of_reachesSlot hp hf hkind (mem_atoms_solution.mp (h.params i hi ha))
  · exact mem_atoms_solution.mpr (h.2 i hi a ha).reachesSlot
  · rw [h.1 i] at ha
    cases ha

/-! ## A generic function with a function as argument -/

/-- `main` calls `use` at `int` with `show`, and `use` calls what it is given. -/
def passesShow : Disk where
  top := "/w"
  tree := .dir [("main.go", .file (some (
    "package main\n\nfunc show(n int) \x7b\x7d\n\n" ++
    "func use[T any](g func(T), x T) \x7b\n\tg(x)\n\x7d\n\n" ++
    "func main() \x7b\n\tuse[int](show, 1)\n\x7d\n")))]

def passesShowModule : Module := { path := "example.com/m", root := [] }

def passesShowProgram : Program :=
  ((passesShow.loadProgram .host passesShowModule "/w").toOption).getD {}

-- One evaluation for all that is needed of the program, because loading it is what takes the time.
theorem passesShow_evaluated :
    (passesShow.loadProgram .host passesShowModule "/w").isOk = true ∧
      ((passesShowProgram.functions[4]?).map fun f =>
        (f.kind, f.signature.params.length, f.paramKey 0)) = some (.instantiation, 2, "g") ∧
      passesShowProgram.factsOf 4 = .calling 1 ∧
      ((passesShowProgram.functions[1]?).map fun f => f.paramKey 0) = some "g" ∧
      .func 0 ∈ passesShowProgram.flowGraph.solve.atoms (.localVar 4 "g") ∧
      passesShowProgram.flowGraph.solve.atoms (.localVar 1 "g") = [] := by
  decide +kernel

theorem passesShow_loads :
    passesShow.loadProgram .host passesShowModule "/w" = .ok passesShowProgram :=
  Disk.loadProgram_of_isOk passesShow_evaluated.1

/-- The instance of `use` at `int`. -/
theorem passesShow_wrapper : ∃ f, passesShowProgram.functions[4]? = some f ∧
    f.kind = .instantiation ∧ f.signature.params.length = 2 ∧ f.paramKey 0 = "g" := by
  obtain ⟨_, hf, _⟩ := passesShow_evaluated
  obtain ⟨f, hf, hdata⟩ := Option.map_eq_some_iff.mp hf
  simp only [Prod.mk.injEq] at hdata
  exact ⟨f, hf, hdata⟩

theorem wrapper_seesThrough_iff_passesShow : ∃ f, passesShowProgram.functions[4]? = some f ∧
    f.kind.isWrapper = true ∧
    (∀ slot, ¬ passesShowProgram.Feeds (.localVar 4 (f.paramKey 0)) slot) ∧
    ∀ i, passesShowProgram.flowGraph.solve.atoms (.result 4 i) = [] := by
  obtain ⟨f, hf, hkind, _⟩ := passesShow_wrapper
  have hwrapper : f.kind.isWrapper = true := by rw [hkind]; rfl
  obtain ⟨target, g, _, _, hfeeds, hempty, _⟩ :=
    wrapper_seesThrough_iff passesShow_loads hf hwrapper
  exact ⟨f, hf, hwrapper, hfeeds _, hempty⟩

/-- A function that is passed to a generic function does not reach the parameter in which the
generic function calls it. -/
theorem passesShow_not_seesThrough :
    ∃ p, passesShow.loadProgram .host passesShowModule "/w" = .ok p ∧ ∃ wrapper f target g,
      p.functions[wrapper]? = some f ∧ f.kind.isWrapper = true ∧ p.functions[target]? = some g ∧
      p.factsOf wrapper = .calling target ∧ ¬ p.SeesThrough wrapper f target g := by
  obtain ⟨_, _, hcalls, hg, hin, hout⟩ := passesShow_evaluated
  obtain ⟨f, hf, hkind, hcount, hkey⟩ := passesShow_wrapper
  obtain ⟨g, hg, hkey'⟩ := Option.map_eq_some_iff.mp hg
  refine ⟨passesShowProgram, passesShow_loads, 4, f, 1, g, hf, by rw [hkind]; rfl, hg, hcalls,
    fun hsees => ?_⟩
  have hsub := hsees.params 0 (by rw [hcount]; decide)
  rw [hkey, standsFor, if_neg (by rw [hkind]; decide), hkey', hout] at hsub
  exact absurd (hsub hin) (by simp)

end CallAtlas.Program
