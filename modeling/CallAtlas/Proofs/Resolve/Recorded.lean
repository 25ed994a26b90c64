import CallAtlas.Program.Load
import CallAtlas.Proofs.Resolve.Reading

/-!
# Every atom is recorded where it is used

The analyses read different parts of the facts. The one by the flow of values follows atoms through
origins; the others look at the addresses taken and the types allocated and never at an origin. They
speak about the same program because a function records every atom that its own facts mention
(`Facts.Recorded`). In a program that has been read this holds of every function, also of the
wrappers and stubs that reading adds, which mention no atom at all.
-/

set_option autoImplicit false

namespace CallAtlas

/-- Facts stay recorded when they grow by origins that they cover. -/
theorem Facts.Recorded.grow {facts facts' : Facts} (h : facts.Recorded)
    (haddress : facts.addressTaken ⊆ facts'.addressTaken)
    (halloc : facts.allocations ⊆ facts'.allocations)
    (hnew : ∀ origin ∈ facts'.origins, origin ∈ facts.origins ∨ facts.Covers origin) :
    facts'.Recorded := by
  intro origin horigin
  rcases hnew origin horigin with hold | hcovers
  · exact (h origin hold).mono haddress halloc
  · exact hcovers.mono haddress halloc

theorem Facts.recorded_of_origins_eq_nil {facts : Facts} (h : facts.origins = []) :
    facts.Recorded := by
  intro origin horigin
  rw [h] at horigin
  exact absurd horigin (by simp)

namespace Resolve

variable {s t : State}

/-! ## Properties of facts -/

/-- The facts of all functions have a property, and so have those of the current one. -/
structure Everywhere (P : Universe → Facts → Prop) (s : State) : Prop where
  program : ∀ facts ∈ s.program.facts, P s.program.decls facts
  frame : P s.program.decls s.frame.facts

/-- If facts begin with a property and no step takes it from the current function, then all facts of
a program that has been read have it. -/
theorem run_everywhere {P : Universe → Facts → Prop} (hempty : ∀ u, P u {})
    (hopen : ∀ u id f, P u (frameOf id f).facts)
    (hmade : ∀ {s : State} {f : Function} {facts : Facts}, s.Made f facts → ∀ u, P u facts)
    (hstep : ∀ {s t : State}, Step s t → P s.program.decls s.frame.facts →
      P s.program.decls t.frame.facts)
    (p : Program) : ∀ facts ∈ (run p).1.facts, P (run p).1.decls facts := by
  have hstart : Everywhere P (.start p) := by
    refine ⟨fun facts hfacts => ?_, hempty _⟩
    rw [List.eq_of_mem_replicate hfacts]
    exact hempty _
  have hkeep : ∀ {s t : State}, Step s t → Everywhere P s → Everywhere P t := by
    intro s t h hs
    refine ⟨?_, h.decls_eq ▸ hstep h hs.frame⟩
    cases h with
    | function f facts _ _ _ made =>
      intro g hg
      rcases List.mem_append.mp hg with hg | hg
      · exact hs.program g hg
      · rw [List.mem_singleton.mp hg]
        exact hmade made _
    | _ => exact hs.program
  have hend := invariant_foldl_readFunction (I := Everywhere P) (J := Everywhere P)
    (fun _ _ hs => ⟨hs.program, hopen _ _ _⟩) hkeep
    (fun {s} hs => ⟨fun facts hfacts => ?_, hs.frame⟩) (readingOrder p) hstart
  · exact hend.program
  · rcases List.mem_or_eq_of_mem_set hfacts with h | rfl
    · exact hs.program facts h
    · exact hs.frame

/-! ## Atoms -/

theorem Step.frame_recorded (h : Step s t) (hs : s.frame.facts.Recorded) :
    t.frame.facts.Recorded := by
  refine hs.grow h.subset.1 h.subset.2 fun origin horigin => ?_
  -- only a site and a flow add origins, and theirs are guarded
  cases h with
  | site site h _ =>
    exact (Facts.mem_origins_addSite.mp horigin).imp_right fun hnew => (h origin hnew).atoms
  | flow flow h _ =>
    refine (Facts.mem_origins_addFlow.mp horigin).imp_right ?_
    rintro rfl
    exact h.atoms
  | _ => exact Or.inl horigin

/-- A body begins with the flows of its named results, which come from variables. -/
theorem frameOf_recorded (id : FuncId) (f : Function) : (frameOf id f).facts.Recorded := by
  intro origin horigin
  simp only [frameOf, Facts.origins, List.flatMap_nil, List.append_nil, List.map_map] at horigin
  obtain ⟨r, _, rfl⟩ := List.mem_map.mp horigin
  intro a ha
  exact absurd ha (by simp [Origin.slot])

/-- **Main statement**: the functions of a program that has been read record every atom that
their facts mention. -/
theorem run_recorded (p : Program) : ∀ facts ∈ (run p).1.facts, facts.Recorded :=
  run_everywhere (P := fun _ facts => facts.Recorded)
    (fun _ => Facts.recorded_of_origins_eq_nil rfl) (fun _ => frameOf_recorded)
    (fun hmade _ => Facts.recorded_of_origins_eq_nil hmade.origins_eq_nil) Step.frame_recorded p

end Resolve

/-- What has been read is returned as it is. -/
theorem Assembly.finish_eq_ok {a : Assembly} {p : Program} (h : a.finish = .ok p) :
    p = (Resolve.run a.program).1 := by
  unfold finish at h
  dsimp only at h
  split at h
  · exact (Except.ok.inj h).symm
  · exact absurd h (by simp)

/-- A program that loads is what is read of some packages put together. -/
theorem Disk.loadProgram_eq_ok {d : Disk} {platform : Build.Platform} {module : Module}
    {start : String} {p : Program} (h : d.loadProgram platform module start = .ok p) :
    ∃ rootPath diagnostics loaded,
      p =
        (Resolve.run (Assembly.ofPackages module.path rootPath diagnostics loaded).program).1 := by
  unfold Disk.loadProgram at h
  cases hroot : d.locate start with
  | error e =>
    rw [hroot] at h
    cases h
  | ok root =>
    rw [hroot] at h
    exact ⟨_, _, _, Assembly.finish_eq_ok h⟩

/-- A load that succeeds gives the program that it is asked for. -/
theorem Disk.loadProgram_of_isOk {d : Disk} {platform : Build.Platform} {module : Module}
    {start : String} (h : (d.loadProgram platform module start).isOk = true) :
    d.loadProgram platform module start =
      .ok ((d.loadProgram platform module start).toOption.getD {}) := by
  cases hload : d.loadProgram platform module start with
  | ok p => rfl
  | error e =>
    rw [hload] at h
    exact absurd h (by simp [Except.isOk, Except.toBool])

theorem Disk.loadProgram_recorded {d : Disk} {platform : Build.Platform} {module : Module}
    {start : String} {p : Program} (h : d.loadProgram platform module start = .ok p) :
    ∀ facts ∈ p.facts, facts.Recorded := by
  obtain ⟨rootPath, diagnostics, loaded, rfl⟩ := Disk.loadProgram_eq_ok h
  exact Resolve.run_recorded _

end CallAtlas
