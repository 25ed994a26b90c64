import CallAtlas.Proofs.Refinement
import CallAtlas.Proofs.Resolve.Grounded

/-!
# What arrives at a call was recorded

The analysis by the flow of values begins with the atoms that origins list. The other analyses begin
with the addresses taken and the types allocated, which are written elsewhere while a body is read.
The two beginnings agree: an atom that the facts of a function list is recorded by the same function
(`Facts.Recorded`), and no interface is ever allocated (`Facts.Concrete`). On its way through the
program an atom stays what it is, so the calls that the flow of values finds lead to functions and
to methods of types that the other analyses know of as well.

Main statement: `Disk.arrivals_recorded`.
-/

set_option autoImplicit false

namespace CallAtlas

/-- Interfaces are not allocated. -/
def Facts.Concrete (u : Universe) (facts : Facts) : Prop :=
  ∀ id ∈ facts.allocations, u.isInterface id = false

theorem Facts.concrete_of_allocations_eq_nil {facts : Facts} (h : facts.allocations = [])
    (u : Universe) : facts.Concrete u := by
  intro id hid
  rw [h] at hid
  cases hid

namespace Resolve

variable {s t : State}

/-- An allocation is guarded, and nothing else is added to those of the current function. -/
theorem Step.frame_concrete (h : Step s t) (hs : s.frame.facts.Concrete s.program.decls) :
    t.frame.facts.Concrete s.program.decls := by
  cases h with
  | allocation id hconcrete _ =>
    exact List.forall_mem_append.mpr ⟨hs, List.forall_mem_singleton.mpr hconcrete⟩
  | _ => exact hs

theorem run_concrete (p : Program) : ∀ facts ∈ (run p).1.facts, facts.Concrete (run p).1.decls := by
  refine run_everywhere (P := fun u facts => facts.Concrete u)
    (Facts.concrete_of_allocations_eq_nil rfl)
    (fun u _ _ => Facts.concrete_of_allocations_eq_nil rfl u) (fun hmade u => ?_)
    Step.frame_concrete p
  cases hmade <;> exact Facts.concrete_of_allocations_eq_nil rfl u

end Resolve

theorem Disk.loadProgram_concrete {d : Disk} {platform : Build.Platform} {module : Module}
    {start : String} {p : Program} (h : d.loadProgram platform module start = .ok p)
    (func : FuncId) : (p.factsOf func).Concrete p.decls := by
  obtain ⟨rootPath, diagnostics, loaded, rfl⟩ := Disk.loadProgram_eq_ok h
  exact Program.factsOf_of_forall (Resolve.run_concrete _)
    (Facts.concrete_of_allocations_eq_nil rfl _) func

namespace Program

variable {p : Program} {caller callee : FuncId} {site : CallSite}

theorem Grounded.lt_of_taken (h : p.Grounded) {func id : FuncId}
    (hid : id ∈ (p.factsOf func).addressTaken) : id < p.functions.length := by
  refine factsOf_of_forall (P := fun facts => ∀ id ∈ facts.addressTaken, id < p.functions.length)
    (fun facts hfacts => ?_) (fun id hid => absurd hid List.not_mem_nil) func id hid
  obtain ⟨owner, howner⟩ := List.mem_iff_getElem?.mp hfacts
  exact (h.facts owner facts howner).addresses

/-- A function that arrives where a function value is called has had its address taken. -/
theorem addressTaken_of_arrives (hgrounded : p.Grounded)
    (hrecorded : ∀ facts ∈ p.facts, facts.Recorded) (hsite : site ∈ (p.factsOf caller).sites)
    {value : Origin} (htarget : site.target = .dynamic value)
    (harrives : p.ReachesOrigin (.func callee) value) : callee ∈ p.addressTaken := by
  have horigin : value ∈ (p.factsOf caller).origins :=
    mem_origins_of_site hsite (by simp [CallSite.origins, htarget])
  obtain ⟨func, htaken⟩ := harrives.exists_knows hrecorded horigin
  exact mem_addressTaken.mpr ⟨hgrounded.lt_of_taken htaken, func, htaken⟩

/-- A type that arrives at the receiver of a call through an interface has been allocated. -/
theorem allocated_of_arrives (hrecorded : ∀ facts ∈ p.facts, facts.Recorded)
    (hsite : site ∈ (p.factsOf caller).sites) {recv : Origin}
    (hrecv : recv ∈ site.recv) {ty : TypeId}
    (harrives : p.ReachesOrigin (.type ty) recv) : ∃ func, ty ∈ (p.factsOf func).allocations := by
  have horigin : recv ∈ (p.factsOf caller).origins := by
    refine mem_origins_of_site hsite (List.mem_append_left _ (List.mem_append_left _ ?_))
    exact Option.mem_toList.mpr hrecv
  exact harrives.exists_knows hrecorded horigin

end Program

namespace Disk

/-- **What arrives was recorded.** In a program that loads, every function that the facts of a
function list as a value is among the addresses that it takes, and every type that they list is
among the types that it allocates and is no interface. So where no value of unknown origin arrives,
a call of a function value is linked to functions whose address is taken somewhere, and a call
through an interface to methods in the method sets of types that are allocated somewhere. -/
theorem arrivals_recorded {d : Disk} {platform : Build.Platform} {module : Module}
    {start : String} {p : Program} (h : d.loadProgram platform module start = .ok p) :
    (∀ func, ∀ origin ∈ (p.factsOf func).origins,
      (∀ id, .func id ∈ origin.atoms → id ∈ (p.factsOf func).addressTaken) ∧
      ∀ id, .type id ∈ origin.atoms →
        id ∈ (p.factsOf func).allocations ∧ p.decls.isInterface id = false) ∧
    ∀ caller, ∀ site ∈ (p.factsOf caller).sites, ∀ callee ∈ p.flowTargets p.flowGraph.solve site,
      (∀ value, site.target = .dynamic value → .opaqueValue ∉ p.flowGraph.solve.valuesOf value →
        callee ∈ p.addressTaken) ∧
      ∀ iface method, site.target = .invoke iface method →
        (∀ recv ∈ site.recv, .opaqueValue ∉ p.flowGraph.solve.valuesOf recv) →
        ∃ func, ∃ ty ∈ (p.factsOf func).allocations, p.decls.isInterface ty = false ∧
          p.decls.methodOf ty method = some callee := by
  have hrecorded := loadProgram_recorded h
  refine ⟨fun func origin horigin => ⟨fun id hid => ?_, fun id hid => ?_⟩,
    fun caller site hsite callee hcallee => ⟨fun value htarget hknown => ?_,
      fun iface method htarget hknown => ?_⟩⟩
  · exact Program.factsOf_recorded hrecorded func origin horigin _ hid
  · have hallocated : id ∈ (p.factsOf func).allocations :=
      Program.factsOf_recorded hrecorded func origin horigin _ hid
    exact ⟨hallocated, loadProgram_concrete h func id hallocated⟩
  · rw [Program.flowTargets, htarget] at hcallee
    simp only [if_neg (mt List.contains_iff_mem.mp hknown), Program.mem_functionsIn,
      Program.mem_valuesOf_solution] at hcallee
    exact Program.addressTaken_of_arrives (loadProgram_grounded h) hrecorded hsite htarget hcallee
  · have hunseen : ¬ ∃ recv ∈ site.recv, p.ReachesOrigin .opaqueValue recv := by
      rintro ⟨recv, hrecv, harrives⟩
      exact hknown recv hrecv (Program.mem_valuesOf_solution.mpr harrives)
    rw [Program.flowTargets, htarget] at hcallee
    simp only [if_neg fun h => hunseen (Program.mem_received.mp (List.contains_iff_mem.mp h)),
      Program.mem_methodsOn, Program.mem_received] at hcallee
    obtain ⟨ty, ⟨recv, hrecv, harrives⟩, _, hmethod⟩ := hcallee
    obtain ⟨func, hallocated⟩ := Program.allocated_of_arrives hrecorded hsite hrecv harrives
    exact ⟨func, ty, hallocated, loadProgram_concrete h func ty hallocated, hmethod⟩

/-- A method calls itself twice: bound to its receiver as a function value, and through an interface
on a new object. -/
def callsItself : Disk where
  top := "/w"
  tree := .dir [("main.go", .file (some (
    "package main\n\ntype T struct \x7b\x7d\n\n" ++
    "func (t T) Error() string \x7b\n" ++
    "\tvar e error = T\x7b\x7d\n\tf := t.Error\n\tf()\n\treturn e.Error()\n\x7d\n")))]

def callsItselfModule : Module := { path := "example.com/m", root := [] }

def callsItselfProgram : Program :=
  ((callsItself.loadProgram .host callsItselfModule "/w").toOption).getD {}

def callOfValue : CallSite := { line := 8, target := .dynamic (.slot (.localVar 0 "f")) }

def callOfInterface : CallSite :=
  { line := 9, target := .invoke 0 "Error", recv := some (.slot (.localVar 0 "e")) }

theorem callsItself_evaluated :
    (callsItself.loadProgram .host callsItselfModule "/w").isOk = true ∧
      (callsItselfProgram.factsOf 0).sites = [callOfValue, callOfInterface] ∧
      callsItselfProgram.flowGraph.solve.valuesOf (.slot (.localVar 0 "f")) = [.func 2] ∧
      callsItselfProgram.flowGraph.solve.valuesOf (.slot (.localVar 0 "e")) = [.type 1] ∧
      callsItselfProgram.flowTargets callsItselfProgram.flowGraph.solve callOfValue = [2] ∧
      callsItselfProgram.flowTargets callsItselfProgram.flowGraph.solve callOfInterface = [0] := by
  decide +kernel

theorem arrivals_recorded_callsItself :
    callsItself.loadProgram .host callsItselfModule "/w" = .ok callsItselfProgram ∧
      2 ∈ callsItselfProgram.addressTaken ∧
      ∃ func, ∃ ty ∈ (callsItselfProgram.factsOf func).allocations,
        callsItselfProgram.decls.isInterface ty = false ∧
        callsItselfProgram.decls.methodOf ty "Error" = some 0 := by
  obtain ⟨hloads, hsites, hfunctions, htypes, hvalue, hinterface⟩ := callsItself_evaluated
  have hload : callsItself.loadProgram .host callsItselfModule "/w" = .ok callsItselfProgram :=
    loadProgram_of_isOk hloads
  obtain ⟨_, hlinks⟩ := arrivals_recorded hload
  obtain ⟨htaken, _⟩ := hlinks 0 callOfValue (by simp [hsites]) 2 (by simp [hvalue])
  obtain ⟨_, hallocated⟩ := hlinks 0 callOfInterface (by simp [hsites]) 0 (by simp [hinterface])
  refine ⟨hload, htaken _ rfl (by simp [hfunctions]), hallocated 0 "Error" rfl fun recv hrecv => ?_⟩
  rw [← Option.some.inj hrecv, htypes]
  simp

end Disk

end CallAtlas
