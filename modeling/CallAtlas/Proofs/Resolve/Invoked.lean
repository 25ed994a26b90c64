import CallAtlas.Proofs.Refinement
import CallAtlas.Proofs.Resolve.Wrappers

/-!
# Every implementation answers

A call through an interface is recorded with the interface and the name of the method. They come out
of the selection that classifies the call, perhaps through embedded structs and defined types, and
what a type implements is decided elsewhere, from the methods that an interface asks for. The two
fit together because a selection stops at an interface only for a method that it asks for
(`State.Calls`), and the declared types stay as they are while bodies are read.

Main statement: every type that implements the interface of a recorded call has the method that is
called, so the call reaches one method for each of these types and leaves none of them out.
-/

set_option autoImplicit false

namespace CallAtlas

/-- The interfaces of all calls in the facts ask for the methods that are called. -/
def Facts.AskedOf (facts : Facts) (u : Universe) : Prop :=
  ∀ site ∈ facts.sites, ∀ iface method, site.target = .invoke iface method →
    method ∈ u.interfaceMethods iface

theorem Facts.AskedOf.addSite {facts : Facts} {u : Universe} {site : CallSite} (h : facts.AskedOf u)
    (hsite : ∀ iface method, site.target = .invoke iface method →
      method ∈ u.interfaceMethods iface) :
    Facts.AskedOf { facts with sites := facts.sites ++ [site] } u :=
  List.forall_mem_append.mpr ⟨h, List.forall_mem_singleton.mpr hsite⟩

namespace Universe

variable {u : Universe} {concrete iface : TypeId} {name : String}

/-- A type that implements an interface has every method that it asks for. -/
theorem exists_methodOf_of_implements (h : u.implements concrete iface = true)
    (hname : name ∈ u.interfaceMethods iface) : ∃ func, u.methodOf concrete name = some func := by
  unfold implements at h
  split at h
  · cases h
  · obtain ⟨_, hall⟩ := Bool.and_eq_true_iff.mp h
    exact Option.isSome_iff_exists.mp (List.all_eq_true.mp hall name hname)

/-- The types that implement an interface, in their order. -/
def implementers (u : Universe) (iface : TypeId) : List TypeId :=
  (List.range u.types.length).filter fun concrete => u.implements concrete iface

theorem mem_implementers_iff (hname : name ∈ u.interfaceMethods iface) :
    concrete ∈ u.implementers iface ↔ u.implements concrete iface = true := by
  rw [implementers, List.mem_filter, List.mem_range, and_iff_right_iff_imp]
  intro h
  obtain ⟨func, hfunc⟩ := exists_methodOf_of_implements h hname
  exact lt_of_methodOf hfunc

theorem implementations_eq_eraseDups (iface : TypeId) (name : String) :
    u.implementations iface name =
      ((u.implementers iface).filterMap fun concrete => u.methodOf concrete name).eraseDups := by
  rw [implementations, implementers, List.filterMap_filter]

/-- Where every type has the method, none is passed over. -/
theorem map_methodOf_eq_map_some {types : List TypeId}
    (h : ∀ concrete ∈ types, ∃ func, u.methodOf concrete name = some func) :
    types.map (fun concrete => u.methodOf concrete name) =
      (types.filterMap fun concrete => u.methodOf concrete name).map some := by
  induction types with
  | nil => rfl
  | cons concrete rest ih =>
    obtain ⟨func, hfunc⟩ := h concrete List.mem_cons_self
    have hrest := ih fun other hother => h other (List.mem_cons_of_mem _ hother)
    simp only [List.map_cons, List.filterMap_cons, hfunc, hrest]

end Universe

namespace Resolve

variable {s t : State}

theorem State.Made.askedOf {f : Function} {facts : Facts} (h : s.Made f facts) (u : Universe) :
    facts.AskedOf u := by
  intro site hsite iface method htarget
  cases h with
  | stub _ _ => cases hsite
  | wrapper _ =>
    rw [List.mem_singleton.mp hsite] at htarget
    cases htarget

theorem Step.frame_askedOf (h : Step s t) (hs : s.frame.facts.AskedOf s.program.decls) :
    t.frame.facts.AskedOf s.program.decls := by
  cases h with
  | site site _ htarget =>
    refine hs.addSite fun iface method heq => ?_
    rw [heq] at htarget
    exact htarget
  | _ => exact hs

theorem run_asked (p : Program) : ∀ facts ∈ (run p).1.facts, facts.AskedOf (run p).1.decls := by
  have hnone {u : Universe} {facts : Facts} (h : facts.sites = []) : facts.AskedOf u := by
    intro site hsite
    rw [h] at hsite
    cases hsite
  exact run_everywhere (P := fun u facts => facts.AskedOf u) (fun _ => hnone rfl)
    (fun _ _ _ => hnone rfl) (fun hmade u => hmade.askedOf u) Step.frame_askedOf p

end Resolve

namespace Disk

/-- **Interface calls leave no implementation out.** In a program that loads, the interface of every
recorded call asks for the method that is called, so every type that implements it has the method.
What the declarations let the call reach are these methods, one for each implementing type in the
order of the types, and of equal ones the first; so it is exactly the functions that some
implementing type has under that name, each once. -/
theorem invoke_reaches_implementers {d : Disk} {platform : Build.Platform} {module : Module}
    {start : String} {p : Program} (h : d.loadProgram platform module start = .ok p)
    {caller : FuncId} {site : CallSite} (hsite : site ∈ (p.factsOf caller).sites) {iface : TypeId}
    {method : String} (htarget : site.target = .invoke iface method) :
    method ∈ p.decls.interfaceMethods iface ∧
    (∀ concrete, p.decls.implements concrete iface = true →
      ∃ func, p.decls.methodOf concrete method = some func) ∧
    (∃ funcs : List FuncId,
      (p.decls.implementers iface).map (fun concrete => p.decls.methodOf concrete method) =
        funcs.map some ∧ p.hierarchyTargets site = funcs.eraseDups) ∧
    (p.hierarchyTargets site).Nodup ∧
    ∀ func, func ∈ p.hierarchyTargets site ↔
      ∃ concrete, p.decls.implements concrete iface = true ∧
        p.decls.methodOf concrete method = some func := by
  have hasked : method ∈ p.decls.interfaceMethods iface := by
    obtain ⟨rootPath, diagnostics, loaded, rfl⟩ := loadProgram_eq_ok h
    exact Resolve.run_asked _ _ (Program.factsOf_mem hsite) site hsite iface method htarget
  have hanswers {concrete : TypeId} (himplements : p.decls.implements concrete iface = true) :=
    Universe.exists_methodOf_of_implements himplements hasked
  have htargets : p.hierarchyTargets site = p.decls.implementations iface method := by
    simp only [Program.hierarchyTargets, htarget, Program.invokeTargets]
  let funcs := (p.decls.implementers iface).filterMap fun concrete =>
    p.decls.methodOf concrete method
  refine ⟨hasked, fun concrete himplements => hanswers himplements, ⟨funcs, ?_, ?_⟩,
    p.nodup_hierarchyTargets site, fun func => ?_⟩
  · refine Universe.map_methodOf_eq_map_some fun concrete hconcrete => ?_
    exact hanswers ((Universe.mem_implementers_iff hasked).mp hconcrete)
  · rw [htargets, Universe.implementations_eq_eraseDups]
  · rw [htargets, Universe.implementations_eq_eraseDups, List.mem_eraseDups, List.mem_filterMap]
    simp only [Universe.mem_implementers_iff hasked]

/-- `Task` is defined by an interface. `A` has the method, and `B` has it from `A`. -/
def callsTask : Disk where
  top := "/w"
  tree := .dir [("main.go", .file (some (
    "package main\n\n" ++
    "type Closer interface \x7b\n\tClose()\n\x7d\n\n" ++
    "type Task Closer\n\n" ++
    "type A struct \x7b\x7d\n\n" ++
    "func (a A) Close() \x7b\x7d\n\n" ++
    "type B struct \x7b\n\tA\n\x7d\n\n" ++
    "func main() \x7b\n\tvar t Task\n\tt.Close()\n\x7d\n")))]

def callsTaskModule : Module := { path := "example.com/m", root := [] }

def callsTaskProgram : Program :=
  ((callsTask.loadProgram .host callsTaskModule "/w").toOption).getD {}

def callsTaskSite : CallSite :=
  { line := 19, target := .invoke 2 "Close", recv := some (.slot (.localVar 1 "t")) }

theorem callsTask_evaluated :
    (callsTask.loadProgram .host callsTaskModule "/w").isOk = true ∧
      (callsTaskProgram.factsOf 1).sites = [callsTaskSite] ∧
      callsTaskProgram.decls.implementers 2 = [3, 4] := by
  decide +kernel

theorem invoke_reaches_implementers_callsTask :
    callsTask.loadProgram .host callsTaskModule "/w" = .ok callsTaskProgram ∧
      callsTaskProgram.decls.implementers 2 = [3, 4] ∧
      "Close" ∈ callsTaskProgram.decls.interfaceMethods 2 ∧
      ∃ func, callsTaskProgram.decls.methodOf 4 "Close" = some func ∧
        func ∈ callsTaskProgram.hierarchyTargets callsTaskSite := by
  obtain ⟨hloads, hsites, himplementers⟩ := callsTask_evaluated
  have hload : callsTask.loadProgram .host callsTaskModule "/w" = .ok callsTaskProgram :=
    loadProgram_of_isOk hloads
  have hsite : callsTaskSite ∈ (callsTaskProgram.factsOf 1).sites := by
    rw [hsites]
    exact List.mem_singleton_self _
  obtain ⟨hasked, hanswers, _, _, hmem⟩ := invoke_reaches_implementers hload hsite rfl
  have himplements : callsTaskProgram.decls.implements 4 2 = true := by
    rw [← Universe.mem_implementers_iff hasked, himplementers]
    decide
  obtain ⟨func, hfunc⟩ := hanswers 4 himplements
  exact ⟨hload, himplementers, hasked, func, hfunc, (hmem func).mpr ⟨4, himplements, hfunc⟩⟩

end Disk

end CallAtlas
