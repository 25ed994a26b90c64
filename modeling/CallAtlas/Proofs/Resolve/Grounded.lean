import CallAtlas.Proofs.Resolve.Wrappers

/-!
# Facts speak of what is there

A function, a type or a call is known by its place in a list, and a program that has been read is
full of such numbers: in its tables, in the links between functions and their literals, and in its
facts. Each of them is the number of something that is there (`Program.Grounded`). Three lists grow
while a body is read: stubs and wrappers are added to the functions, each with its facts and its
scope, and a call has a number before the next one is recorded. What was there stays there, so one
step at a time is enough.
-/

set_option autoImplicit false

namespace CallAtlas

namespace Program

variable (p : Program)

/-- The function or the type exists. -/
def HasAtom : Atom → Prop
  | .func id => id < p.functions.length
  | .type id => id < p.decls.types.length
  | .opaqueValue => True

/-- The function that is called by name exists, and so does the interface that a method is called
on. -/
def HasTarget : CallTarget → Prop
  | .static func => func < p.functions.length
  | .invoke iface _ => iface < p.decls.types.length
  | .dynamic _ => True

/-- The slot is that of a function or a type that exists. Among the facts of the function `owner`
with `sites` calls, the result of a call is that of one of these calls. -/
def HasSlot (owner : FuncId) (sites : Nat) : Slot → Prop
  | .localVar func _ => func < p.functions.length
  | .result func _ => func < p.functions.length
  | .callResult func site _ => func = owner ∧ site < sites
  | .field type _ => type < p.decls.types.length
  | .global _ _ => True

/-- Every number in the facts of the function `owner` is that of something that is there. -/
structure FactsGrounded (owner : FuncId) (facts : Facts) : Prop where
  targets : ∀ site ∈ facts.sites, p.HasTarget site.target
  addresses : ∀ id ∈ facts.addressTaken, id < p.functions.length
  allocations : ∀ id ∈ facts.allocations, id < p.decls.types.length
  atoms : ∀ origin ∈ facts.origins, ∀ a ∈ origin.atoms, p.HasAtom a
  slots : ∀ origin ∈ facts.origins, ∀ slot ∈ origin.slots, p.HasSlot owner facts.sites.length slot
  sinks : ∀ flow ∈ facts.flows, p.HasSlot owner facts.sites.length flow.sink

/-- There are facts for every function, every function knows its own number, and every number in the
program is that of something that is there: in the tables, in the links between a function and its
literals, which agree, and in the facts. -/
structure Grounded : Prop where
  length : p.facts.length = p.functions.length
  ids : ∀ (i : FuncId) (f : Function), p.functions[i]? = some f → f.id = i
  listed : ∀ id, p.Lists id → id < p.functions.length
  literals : ∀ (i : FuncId) (f : Function), p.functions[i]? = some f →
    ∀ c ∈ f.closures, ∃ g, p.functions[c]? = some g ∧ g.parent = some i
  parents : ∀ (i : FuncId) (f : Function), p.functions[i]? = some f →
    ∀ outer, f.parent = some outer → ∃ g, p.functions[outer]? = some g ∧ i ∈ g.closures
  facts : ∀ (owner : FuncId) (facts : Facts), p.facts[owner]? = some facts →
    p.FactsGrounded owner facts

variable {p} {q : Program} {owner : FuncId} {facts : Facts}

theorem HasAtom.mono {a : Atom} (h : p.HasAtom a)
    (hfunctions : p.functions.length ≤ q.functions.length) (hdecls : q.decls = p.decls) :
    q.HasAtom a := by
  cases a with
  | func id => exact Nat.lt_of_lt_of_le h hfunctions
  | type id =>
    show id < q.decls.types.length
    rw [hdecls]
    exact h
  | opaqueValue => trivial

theorem HasTarget.mono {target : CallTarget} (h : p.HasTarget target)
    (hfunctions : p.functions.length ≤ q.functions.length) (hdecls : q.decls = p.decls) :
    q.HasTarget target := by
  cases target with
  | static func => exact Nat.lt_of_lt_of_le h hfunctions
  | invoke iface method =>
    show iface < q.decls.types.length
    rw [hdecls]
    exact h
  | dynamic callee => trivial

theorem HasSlot.mono {sites sites' : Nat} {slot : Slot} (h : p.HasSlot owner sites slot)
    (hsites : sites ≤ sites') (hfunctions : p.functions.length ≤ q.functions.length)
    (hdecls : q.decls = p.decls) : q.HasSlot owner sites' slot := by
  cases slot with
  | localVar func name => exact Nat.lt_of_lt_of_le h hfunctions
  | result func i => exact Nat.lt_of_lt_of_le h hfunctions
  | callResult func site i => exact ⟨h.1, Nat.lt_of_lt_of_le h.2 hsites⟩
  | field type name =>
    show type < q.decls.types.length
    rw [hdecls]
    exact h
  | global pkg name => trivial

theorem FactsGrounded.mono (h : p.FactsGrounded owner facts)
    (hfunctions : p.functions.length ≤ q.functions.length) (hdecls : q.decls = p.decls) :
    q.FactsGrounded owner facts where
  targets site hsite := (h.targets site hsite).mono hfunctions hdecls
  addresses id hid := Nat.lt_of_lt_of_le (h.addresses id hid) hfunctions
  allocations id hid := hdecls ▸ h.allocations id hid
  atoms origin horigin a ha := (h.atoms origin horigin a ha).mono hfunctions hdecls
  slots origin horigin slot hslot :=
    (h.slots origin horigin slot hslot).mono (Nat.le_refl _) hfunctions hdecls
  sinks flow hflow := (h.sinks flow hflow).mono (Nat.le_refl _) hfunctions hdecls

/-- What the facts know exists. -/
theorem FactsGrounded.hasAtom (h : p.FactsGrounded owner facts) {a : Atom} (ha : facts.Knows a) :
    p.HasAtom a := by
  cases a with
  | func id => exact h.addresses id ha
  | type id => exact h.allocations id ha
  | opaqueValue => trivial

theorem FactsGrounded.addSite (h : p.FactsGrounded owner facts) {site : CallSite}
    (htarget : p.HasTarget site.target)
    (horigins : ∀ origin ∈ site.origins, facts.Covers origin ∧
      ∀ slot ∈ origin.slots, p.HasSlot owner facts.sites.length slot) :
    p.FactsGrounded owner { facts with sites := facts.sites ++ [site] } := by
  have hgrow {slot : Slot} (hslot : p.HasSlot owner facts.sites.length slot) :
      p.HasSlot owner (facts.sites ++ [site]).length slot :=
    hslot.mono (by simp) (Nat.le_refl _) rfl
  have htargets := List.forall_mem_append.mpr ⟨h.targets, List.forall_mem_singleton.mpr htarget⟩
  refine ⟨htargets, h.addresses, h.allocations, fun origin horigin a ha => ?_,
    fun origin horigin slot hslot => ?_, fun flow hflow => hgrow (h.sinks flow hflow)⟩
  · rcases Facts.mem_origins_addSite.mp horigin with hold | hnew
    · exact h.atoms origin hold a ha
    · exact h.hasAtom ((horigins origin hnew).1 a ha)
  · rcases Facts.mem_origins_addSite.mp horigin with hold | hnew
    · exact hgrow (h.slots origin hold slot hslot)
    · exact hgrow ((horigins origin hnew).2 slot hslot)

theorem FactsGrounded.addFlow (h : p.FactsGrounded owner facts) {flow : Flow}
    (hsource : facts.Covers flow.source)
    (hslots : ∀ slot ∈ flow.source.slots, p.HasSlot owner facts.sites.length slot)
    (hsink : p.HasSlot owner facts.sites.length flow.sink) :
    p.FactsGrounded owner { facts with flows := facts.flows ++ [flow] } := by
  have hsinks := List.forall_mem_append.mpr ⟨h.sinks, List.forall_mem_singleton.mpr hsink⟩
  refine ⟨h.targets, h.addresses, h.allocations, fun origin horigin a ha => ?_,
    fun origin horigin slot hslot => ?_, hsinks⟩
  · rcases Facts.mem_origins_addFlow.mp horigin with hold | rfl
    · exact h.atoms origin hold a ha
    · exact h.hasAtom (hsource a ha)
  · rcases Facts.mem_origins_addFlow.mp horigin with hold | rfl
    · exact h.slots origin hold slot hslot
    · exact hslots slot hslot

theorem FactsGrounded.addAddress (h : p.FactsGrounded owner facts) {id : FuncId}
    (hid : id < p.functions.length) :
    p.FactsGrounded owner { facts with addressTaken := facts.addressTaken ++ [id] } := by
  have haddresses := List.forall_mem_append.mpr ⟨h.addresses, List.forall_mem_singleton.mpr hid⟩
  exact ⟨h.targets, haddresses, h.allocations, h.atoms, h.slots, h.sinks⟩

theorem FactsGrounded.addAllocation (h : p.FactsGrounded owner facts) {id : TypeId}
    (hid : id < p.decls.types.length) :
    p.FactsGrounded owner { facts with allocations := facts.allocations ++ [id] } := by
  have hallocations := List.forall_mem_append.mpr ⟨h.allocations, List.forall_mem_singleton.mpr hid⟩
  exact ⟨h.targets, h.addresses, hallocations, h.atoms, h.slots, h.sinks⟩

theorem factsGrounded_empty (p : Program) (owner : FuncId) : p.FactsGrounded owner {} where
  targets _ h := absurd h List.not_mem_nil
  addresses _ h := absurd h List.not_mem_nil
  allocations _ h := absurd h List.not_mem_nil
  atoms _ h := absurd h List.not_mem_nil
  slots _ h := absurd h List.not_mem_nil
  sinks _ h := absurd h List.not_mem_nil

theorem factsGrounded_calling {target : FuncId} (h : target < p.functions.length) :
    p.FactsGrounded owner (.calling target) := by
  have hsite : p.HasTarget (CallSite.mk 0 (.static target) none []).target := h
  exact (factsGrounded_empty p owner).addSite hsite fun origin horigin =>
    absurd horigin List.not_mem_nil

end Program

theorem Program.HasBody.lt {p : Program} {id : FuncId} (h : p.HasBody id) :
    id < p.functions.length := by
  obtain ⟨f, hf, _⟩ := h
  exact (List.getElem?_eq_some_iff.mp hf).1

/-- Functions in functions agree on their links wherever they stand in the list. -/
theorem Program.Assembled.grounded {p : Program} (hp : p.Assembled)
    (hfacts : p.facts = List.replicate p.functions.length {}) : p.Grounded := by
  obtain ⟨roots, hnested⟩ := hp.nested
  refine ⟨by simp [hfacts], fun i f hf =>
    hnested.numbered (f, i) (List.mem_zipIdx_iff_getElem?.mpr hf),
    fun id hid => hp.listed hid, fun i f hf c hc => ?_, fun i f hf outer houter => ?_,
    fun owner facts h => ?_⟩
  · obtain ⟨g, hg, hparent⟩ := hnested.literals (f, i) (List.mem_zipIdx_iff_getElem?.mpr hf) c hc
    exact ⟨g, List.mem_zipIdx_iff_getElem?.mp hg, hparent⟩
  · rcases hnested.parents (f, i) (List.mem_zipIdx_iff_getElem?.mpr hf) with
      ⟨hnone, _⟩ | ⟨g, q, hq, hg, hid⟩
    · exact absurd (houter.symm.trans hnone) (by simp)
    · obtain rfl : outer = q := Option.some.inj (houter.symm.trans hq)
      exact ⟨g, List.mem_zipIdx_iff_getElem?.mp hg, hid⟩
  · rw [hfacts] at h
    rw [List.eq_of_mem_replicate (List.mem_of_getElem? h)]
    exact p.factsGrounded_empty owner

namespace Resolve

variable {s t : State}

/-! ## One step -/

theorem Underway.lt_of_names (hs : Underway s) {id : FuncId} (h : s.Names id) :
    id < s.program.functions.length :=
  h.elim (fun hlt => hlt) (hs.program.listed id)

theorem Underway.hasTarget (hs : Underway s) {target : CallTarget} (h : s.Calls target) :
    s.program.HasTarget target := by
  cases target with
  | static func => exact hs.lt_of_names h
  | invoke iface method => exact Universe.lt_of_mem_interfaceMethods h
  | dynamic callee => trivial

theorem Underway.hasSlot (hs : Underway s) {slot : Slot} (h : s.Holds slot) :
    s.program.HasSlot s.frame.id s.frame.facts.sites.length slot := by
  cases slot with
  | localVar id name => exact (hs.hasBody h).lt
  | result id i =>
    obtain rfl : id = s.frame.id := h
    exact hs.current.lt
  | callResult id site i => exact h
  | field owner name => exact h
  | global pkg name => trivial

/-- What is recorded of the current function is guarded, so it is there. -/
theorem Step.frame_grounded (h : Step s t) (hs : Underway s)
    (hfacts : s.program.FactsGrounded s.frame.id s.frame.facts) :
    s.program.FactsGrounded t.frame.id t.frame.facts := by
  cases h with
  | site site horigins htarget =>
    refine hfacts.addSite (hs.hasTarget htarget) fun origin horigin => ?_
    have hcovers := horigins origin horigin
    exact ⟨hcovers.atoms, fun slot hslot => hs.hasSlot (hcovers.slots slot hslot)⟩
  | flow flow hsource hsink =>
    exact hfacts.addFlow hsource.atoms (fun slot hslot => hs.hasSlot (hsource.slots slot hslot))
      (hs.hasSlot hsink)
  | address id hid => exact hfacts.addAddress (hs.lt_of_names hid)
  | allocation id _ hid => exact hfacts.addAllocation hid
  | _ => exact hfacts

theorem State.Made.grounded {f : Function} {facts : Facts} (h : s.Made f facts) (hs : Underway s)
    (owner : FuncId) : s.program.FactsGrounded owner facts := by
  cases h with
  | stub _ _ => exact s.program.factsGrounded_empty owner
  | wrapper hwraps => exact Program.factsGrounded_calling (hs.lt_of_names hwraps.names)

/-- A new function knows its number and stands outside of all others. -/
theorem Step.getElem?_functions (h : Step s t) {i : FuncId} {f : Function}
    (hf : t.program.functions[i]? = some f) :
    s.program.functions[i]? = some f ∨ f.id = i ∧ f.parent = none ∧ f.closures = [] := by
  cases h with
  | function g facts _ _ hlinks _ =>
    rcases of_getElem?_concat hf with hold | ⟨rfl, rfl⟩
    · exact Or.inl hold
    · exact Or.inr ⟨rfl, hlinks⟩
  | _ => exact Or.inl hf

theorem Step.getElem?_facts (h : Step s t) {owner : FuncId} {facts : Facts}
    (hfacts : t.program.facts[owner]? = some facts) :
    s.program.facts[owner]? = some facts ∨ ∃ f, s.Made f facts := by
  cases h with
  | function f made _ _ _ hmade =>
    rcases of_getElem?_concat hfacts with hold | ⟨_, rfl⟩
    · exact Or.inl hold
    · exact Or.inr ⟨f, hmade⟩
  | _ => exact Or.inl hfacts

theorem Step.grounded (h : Step s t) (hs : Underway s) (hp : s.program.Grounded) :
    t.program.Grounded := by
  have hwraps := h.wrapsOnly hs.program
  refine ⟨hwraps.length, fun i f hf => ?_, hwraps.listed, fun i f hf c hc => ?_,
    fun i f hf outer houter => ?_, fun owner facts hfacts => ?_⟩
  · rcases h.getElem?_functions hf with hf | ⟨hid, _⟩
    · exact hp.ids i f hf
    · exact hid
  · rcases h.getElem?_functions hf with hf | ⟨_, _, hnil⟩
    · obtain ⟨g, hg, hparent⟩ := hp.literals i f hf c hc
      exact ⟨g, getElem?_of_extends h.functions_prefix hg, hparent⟩
    · rw [hnil] at hc
      cases hc
  · rcases h.getElem?_functions hf with hf | ⟨_, hnone, _⟩
    · obtain ⟨g, hg, hid⟩ := hp.parents i f hf outer houter
      exact ⟨g, getElem?_of_extends h.functions_prefix hg, hid⟩
    · exact absurd (hnone.symm.trans houter) (by simp)
  · have hold : s.program.FactsGrounded owner facts := by
      rcases h.getElem?_facts hfacts with hfacts | ⟨f, hmade⟩
      · exact hp.facts owner facts hfacts
      · exact hmade.grounded hs owner
    exact hold.mono h.functions_prefix.length_le h.decls_eq

/-! ## All bodies -/

/-- While a body is read, the facts of the current function are grounded, and so is the program. -/
structure GroundedUnderway (s : State) : Prop extends Underway s where
  grounded : s.program.Grounded
  frame_grounded : s.program.FactsGrounded s.frame.id s.frame.facts

theorem Step.groundedUnderway (h : Step s t) (hs : GroundedUnderway s) : GroundedUnderway t where
  toUnderway := h.underway hs.toUnderway
  grounded := h.grounded hs.toUnderway hs.grounded
  frame_grounded := (h.frame_grounded hs.toUnderway hs.frame_grounded).mono
    h.functions_prefix.length_le h.decls_eq

theorem factsGrounded_frameOf {p : Program} {id : FuncId} (hid : id < p.functions.length)
    (f : Function) : p.FactsGrounded id (frameOf id f).facts := by
  refine ⟨fun _ h => absurd h List.not_mem_nil, fun _ h => absurd h List.not_mem_nil,
    fun _ h => absurd h List.not_mem_nil, fun origin horigin a ha => ?_,
    fun origin horigin slot hslot => ?_, fun flow hflow => ?_⟩
  · simp only [frameOf, Facts.origins, List.flatMap_nil, List.append_nil, List.map_map] at horigin
    obtain ⟨r, _, rfl⟩ := List.mem_map.mp horigin
    exact absurd ha List.not_mem_nil
  · simp only [frameOf, Facts.origins, List.flatMap_nil, List.append_nil, List.map_map] at horigin
    obtain ⟨r, _, rfl⟩ := List.mem_map.mp horigin
    rw [List.mem_singleton.mp hslot]
    exact hid
  · obtain ⟨r, _, rfl⟩ := List.mem_map.mp hflow
    exact hid

theorem GroundedUnderway.close (hs : GroundedUnderway s) : s.close.program.Grounded := by
  have hwraps := hs.toUnderway.close.program
  refine ⟨hwraps.length, hs.grounded.ids, hwraps.listed, hs.grounded.literals, hs.grounded.parents,
    fun owner facts hfacts => ?_⟩
  have hold : s.program.FactsGrounded owner facts := by
    by_cases howner : s.frame.id = owner
    · subst howner
      have hlt : s.frame.id < s.program.facts.length := hs.grounded.length ▸ hs.current.lt
      obtain rfl : s.frame.facts = facts :=
        Option.some.inj ((List.getElem?_set_self hlt).symm.trans hfacts)
      exact hs.frame_grounded
    · exact hs.grounded.facts owner facts ((List.getElem?_set_ne howner).symm.trans hfacts)
  exact hold.mono (Nat.le_refl _) rfl

/-- **Main statement**: in a program that has been read, every number is that of
something that is there. -/
theorem run_grounded {p : Program} (hp : p.Assembled) : (run p).1.Grounded := by
  have hstart : (State.start p).program.Grounded :=
    Program.Assembled.grounded ⟨hp.kinds, hp.methods, hp.packages, hp.nested⟩ rfl
  have hend := invariant_foldl_readFunction (I := GroundedUnderway)
    (J := fun s => Settled s ∧ s.program.Grounded)
    (fun hf hbody hs =>
      ⟨hs.1.open hf hbody, hs.2, factsGrounded_frameOf (List.getElem?_eq_some_iff.mp hf).1 _⟩)
    Step.groundedUnderway (fun hs => ⟨hs.toUnderway.close, hs.close⟩) (readingOrder p)
    ⟨settled_start hp, hstart⟩
  exact hend.2

end Resolve

theorem Disk.loadProgram_grounded {d : Disk} {platform : Build.Platform} {module : Module}
    {start : String} {p : Program} (h : d.loadProgram platform module start = .ok p) :
    p.Grounded := by
  obtain ⟨rootPath, diagnostics, loaded, rfl⟩ := Disk.loadProgram_eq_ok h
  exact Resolve.run_grounded (Assembly.assembled_ofPackages _ _ _ _)

end CallAtlas
