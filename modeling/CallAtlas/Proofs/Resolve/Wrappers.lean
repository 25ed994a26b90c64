import CallAtlas.Proofs.Program.Assembled
import CallAtlas.Proofs.Resolve.Recorded

/-!
# What is recorded of a wrapper

Reading a body adds a wrapper when it meets a method value, a method on a type, or a generic
function at some types. A wrapper has no body, so nothing is ever recorded of it but the call that
it is made with, and that call passes nothing.

A local variable is recorded with the function that declares it, and a result with the function that
returns it. Both are functions whose bodies are read (`Program.Owns`). So no flow of the program
begins at a variable of a wrapper or ends in a result of one.
-/

set_option autoImplicit false

namespace CallAtlas

/-- The function has a body. -/
def Program.HasBody (p : Program) (id : FuncId) : Prop :=
  ∃ f, p.functions[id]? = some f ∧ f.body.isSome

/-- The local variables that the facts mention and the results that they set are those of
functions with bodies. -/
structure Program.Owns (p : Program) (facts : Facts) : Prop where
  vars : ∀ origin ∈ facts.origins, ∀ id name, .localVar id name ∈ origin.slots → p.HasBody id
  results : ∀ flow ∈ facts.flows, ∀ id i, flow.sink = .result id i → p.HasBody id

/-- Every wrapper has no body and makes one call, and what the facts mention is owned. -/
structure Program.WrapsOnly (p : Program) : Prop where
  length : p.facts.length = p.functions.length
  listed : ∀ id, p.Lists id → id < p.functions.length
  wrapper : ∀ (id : FuncId) (f : Function), p.functions[id]? = some f → f.kind.isWrapper = true →
    f.body = none ∧ ∃ target < p.functions.length, p.facts[id]? = some (.calling target)
  owns : ∀ facts ∈ p.facts, p.Owns facts

namespace Resolve

variable {s t : State}

/-- Between bodies, only functions with bodies have variables. -/
structure Settled (s : State) : Prop where
  program : s.program.WrapsOnly
  scopes : ∀ id name ty, (s.scopes[id]?.getD {}).vars.get? name = some ty → s.program.HasBody id

/-- While a body is read, the current function has it, and its facts mention what is owned. -/
structure Underway (s : State) : Prop extends Settled s where
  current : s.program.HasBody s.frame.id
  frame : s.program.Owns s.frame.facts

theorem Underway.hasBody (h : Underway s) {id : FuncId} (hid : s.Declares id) :
    s.program.HasBody id := by
  rcases hid with rfl | ⟨name, ty, hvar⟩
  · exact h.current
  · exact h.scopes id name ty hvar

/-! ## One step -/

/-- A new function has no literals, so the tables stay as they are. -/
theorem Step.lists {id : FuncId} (h : Step s t) (ht : t.program.Lists id) : s.program.Lists id := by
  cases h with
  | function f facts _ _ hlinks _ =>
    cases ht with
    | literal hg hid =>
      rcases List.mem_append.mp hg with hg | hg
      · exact .literal hg hid
      · rw [List.mem_singleton.mp hg] at hid
        exact absurd (hlinks.2 ▸ hid : id ∈ []) List.not_mem_nil
    | method hu hm => exact .method hu hm
    | packageFunc hq hid => exact .packageFunc hq hid
    | init hq hid => exact .init hq hid
    | userInit hq hid => exact .userInit hq hid
  | globals globals => exact ht.mono rfl rfl fun _ hf => hf
  | _ => exact ht

theorem Step.hasBody {id : FuncId} (h : Step s t) (hid : s.program.HasBody id) :
    t.program.HasBody id := by
  obtain ⟨g, hg, hbody⟩ := hid
  exact ⟨g, getElem?_of_extends h.functions_prefix hg, hbody⟩

theorem Step.owns {facts : Facts} (h : Step s t) (hs : s.program.Owns facts) :
    t.program.Owns facts where
  vars origin horigin id name hslot := h.hasBody (hs.vars origin horigin id name hslot)
  results flow hflow id i hsink := h.hasBody (hs.results flow hflow id i hsink)

/-- The facts of the current function grow by origins that are covered and by results of its own. -/
theorem Step.frame_owns (h : Step s t) (hs : Underway s) : t.program.Owns t.frame.facts := by
  refine h.owns ?_
  cases h with
  | site site hsite _ =>
    refine ⟨fun origin horigin id name hslot => ?_, hs.frame.results⟩
    rcases Facts.mem_origins_addSite.mp horigin with hold | hnew
    · exact hs.frame.vars origin hold id name hslot
    · exact hs.hasBody ((hsite origin hnew).slots _ hslot)
  | flow flow hsource hsink =>
    refine ⟨fun origin horigin id name hslot => ?_, fun f hf id i heq => ?_⟩
    · rcases Facts.mem_origins_addFlow.mp horigin with hold | rfl
      · exact hs.frame.vars origin hold id name hslot
      · exact hs.hasBody (hsource.slots _ hslot)
    · rcases List.mem_append.mp hf with hold | hnew
      · exact hs.frame.results f hold id i heq
      · rw [List.mem_singleton.mp hnew] at heq
        rw [heq] at hsink
        obtain rfl : id = s.frame.id := hsink
        exact hs.current
  | _ => exact ⟨hs.frame.vars, hs.frame.results⟩

theorem State.Made.owns {f : Function} {facts : Facts} (h : s.Made f facts) (p : Program) :
    p.Owns facts := by
  have hflows : facts.flows = [] := by cases h <;> rfl
  exact ⟨by simp [h.origins_eq_nil], by simp [hflows]⟩

/-- A new function is a stub, or a wrapper whose target exists. -/
theorem Step.wrapsOnly (h : Step s t) (hs : s.program.WrapsOnly) : t.program.WrapsOnly := by
  have howns {facts : Facts} (hfacts : facts ∈ s.program.facts) := h.owns (hs.owns facts hfacts)
  have hlisted {id : FuncId} (hid : t.program.Lists id) := hs.listed id (h.lists hid)
  have hgrow {id : FuncId} (hid : id < s.program.functions.length) :=
    Nat.lt_of_lt_of_le hid h.functions_prefix.length_le
  cases h with
  | function f facts hnew hbody _ hmade =>
    refine ⟨by simp [hs.length], fun id hid => hgrow (hlisted hid),
      fun id g hg hkind => ?_, fun facts' hfacts' => ?_⟩
    -- a wrapper from before keeps its call, and the only other one is the function that is added
    · rcases of_getElem?_concat hg with hold | ⟨rfl, rfl⟩
      · obtain ⟨hnone, target, htarget, hcalls⟩ := hs.wrapper id g hold hkind
        exact ⟨hnone, target, hgrow htarget, getElem?_of_extends (List.prefix_append _ _) hcalls⟩
      · cases hmade with
        | stub hstub _ => exact absurd (hstub.symm.trans hkind) (by decide)
        | @wrapper target hwraps =>
          have hlt : target < s.program.functions.length := hwraps.names.elim id (hs.listed target)
          refine ⟨hbody, target, hgrow hlt, ?_⟩
          rw [← hs.length]
          exact List.getElem?_concat_length
    · rcases List.mem_append.mp hfacts' with hold | hmem
      · exact howns hold
      · rw [List.mem_singleton.mp hmem]
        exact hmade.owns _
  | _ => exact ⟨hs.length, fun id hid => hlisted hid, hs.wrapper, fun facts hfacts => howns hfacts⟩

theorem Step.scopes (h : Step s t)
    (hs : ∀ id name ty, (s.scopes[id]?.getD {}).vars.get? name = some ty → s.program.HasBody id)
    (id : FuncId) (name : String) (ty : Ty)
    (hvar : (t.scopes[id]?.getD {}).vars.get? name = some ty) : t.program.HasBody id := by
  refine h.hasBody (hs id name ty ?_)
  cases h with
  | function f facts _ _ _ _ =>
    rw [State.withFunction_scopes] at hvar
    rcases Nat.lt_or_ge id s.scopes.length with hlt | hge
    · rwa [List.getElem?_append_left hlt] at hvar
    · rw [List.getElem?_append_right hge] at hvar
      -- the new scope is empty, and so is the scope of a function that has none
      rcases Nat.eq_zero_or_pos (id - s.scopes.length) with hzero | hpos
      · rw [hzero] at hvar
        cases hvar
      · rw [List.getElem?_eq_none hpos] at hvar
        cases hvar
  | _ => exact hvar

theorem Step.underway (h : Step s t) (hs : Underway s) : Underway t where
  program := h.wrapsOnly hs.program
  scopes := h.scopes hs.scopes
  current := h.frame_id ▸ h.hasBody hs.current
  frame := h.frame_owns hs

/-! ## All bodies -/

/-- A body begins with flows from its named results into its results. -/
theorem Settled.open (hs : Settled s) {id : FuncId} {f : Function} {body : List Outline.Stmt}
    (hf : s.program.functions[id]? = some f) (hbody : f.body = some body) :
    Underway { s with frame := frameOf id f } := by
  have hid : s.program.HasBody id := ⟨f, hf, by simp [hbody]⟩
  refine ⟨⟨hs.program, hs.scopes⟩, hid, fun origin horigin owner name hslot => ?_,
    fun flow hflow owner i hsink => ?_⟩
  · simp only [frameOf, Facts.origins, List.flatMap_nil, List.append_nil, List.map_map] at horigin
    obtain ⟨r, _, rfl⟩ := List.mem_map.mp horigin
    obtain ⟨rfl, rfl⟩ := Slot.localVar.inj (List.mem_singleton.mp hslot)
    exact hid
  · obtain ⟨r, _, rfl⟩ := List.mem_map.mp hflow
    obtain ⟨rfl, rfl⟩ := Slot.result.inj hsink
    exact hid

/-- The facts of the function that has been read replace its own, and it is no wrapper. -/
theorem Underway.close (hs : Underway s) : Settled s.close := by
  refine ⟨⟨by simpa [State.close] using hs.program.length,
    fun id hid => hs.program.listed id (hid.mono rfl rfl fun _ hf => hf),
    fun id f hf hkind => ?_, fun facts hfacts => ?_⟩, fun id name ty hvar => ?_⟩
  · obtain ⟨hnone, target, htarget, hcalls⟩ := hs.program.wrapper id f hf hkind
    have hne : s.frame.id ≠ id := by
      rintro rfl
      obtain ⟨g, hg, hbody⟩ := hs.current
      obtain rfl : g = f := Option.some.inj (hg.symm.trans hf)
      simp [hnone] at hbody
    exact ⟨hnone, target, htarget, (List.getElem?_set_ne hne).trans hcalls⟩
  · rcases List.mem_or_eq_of_mem_set hfacts with h | rfl
    · exact ⟨(hs.program.owns facts h).vars, (hs.program.owns facts h).results⟩
    · exact ⟨hs.frame.vars, hs.frame.results⟩
  · by_cases hid : s.frame.id = id
    · exact hid ▸ hs.current
    · simp only [State.close, List.getElem?_set_ne hid] at hvar
      exact hs.scopes id name ty hvar

theorem settled_start {p : Program} (hp : p.Assembled) : Settled (.start p) := by
  refine ⟨⟨by simp, fun id hid => hp.listed (hid.mono rfl rfl fun _ hf => hf),
    fun id f hf hkind => ?_, fun facts hfacts => ?_⟩, fun id name ty hvar => ?_⟩
  · simp [hp.kinds f (List.mem_of_getElem? hf)] at hkind
  · rw [List.eq_of_mem_replicate hfacts]
    exact ⟨by simp [Facts.origins], by simp⟩
  · rw [List.getElem?_replicate] at hvar
    split at hvar <;> cases hvar

/-- **Main statement**: in a program that has been read, a wrapper has its one call and nothing
else. -/
theorem run_wrapsOnly {p : Program} (hp : p.Assembled) : (run p).1.WrapsOnly :=
  (invariant_foldl_readFunction (I := Underway) (J := Settled) (fun hf hbody hs => hs.open hf hbody)
    Step.underway Underway.close (readingOrder p) (settled_start hp)).program

end Resolve

theorem Disk.loadProgram_wrapsOnly {d : Disk} {platform : Build.Platform} {module : Module}
    {start : String} {p : Program} (h : d.loadProgram platform module start = .ok p) :
    p.WrapsOnly := by
  obtain ⟨rootPath, diagnostics, loaded, rfl⟩ := Disk.loadProgram_eq_ok h
  exact Resolve.run_wrapsOnly (Assembly.assembled_ofPackages _ _ _ _)

end CallAtlas
