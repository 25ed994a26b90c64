import CallAtlas.Proofs.WellFormed
import CallAtlas.Resolve.Actions
import Mathlib.Logic.Relation

/-!
# What reading a body can do

Reading a body is one long computation, but whatever it does to the state it does by one of a few
steps (`Step`). A step that records where a value comes from is guarded: every function and every
type that the origin names has been recorded before, as an address taken or as an allocation, and
every slot belongs to something that is there: a local variable to the current function or to one
whose body has been read, the result of a call to a call of the current function that has been
recorded, and a field to a declared type. A call, an address or an allocation is recorded of a
function or a type that exists, and a call through an interface is recorded of a method that the
interface asks for. So is a step guarded that adds a function: it adds a stub, which has no facts,
or a wrapper, which has one call, of a method of a type or of a generic function. What holds along
every reading is then proved once for each step and never for each expression.

`Reads s m Q` is the statement that is proved of the parts of the reader: from the state `s` the
computation `m` takes steps only, and its answer is as `Q` says in the state that it ends in. This
module has the rules for putting such statements together and one of them for every action.
-/

set_option autoImplicit false

namespace CallAtlas

/-! ## Origins that are recorded -/

/-- The origins that a site mentions. -/
def CallSite.origins (site : CallSite) : List Origin :=
  site.recv.toList ++ site.args ++
    match site.target with
    | .dynamic callee => [callee]
    | _ => []

/-- The origins that the facts of a function mention. -/
def Facts.origins (facts : Facts) : List Origin :=
  facts.flows.map Flow.source ++ facts.sites.flatMap CallSite.origins

theorem Facts.mem_origins_addSite {facts : Facts} {site : CallSite} {origin : Origin} :
    origin ∈ Facts.origins { facts with sites := facts.sites ++ [site] } ↔
      origin ∈ facts.origins ∨ origin ∈ site.origins := by
  simp only [origins, List.flatMap_append, List.flatMap_cons, List.flatMap_nil, List.append_nil,
    List.mem_append, or_assoc]

theorem Facts.mem_origins_addFlow {facts : Facts} {flow : Flow} {origin : Origin} :
    origin ∈ Facts.origins { facts with flows := facts.flows ++ [flow] } ↔
      origin ∈ facts.origins ∨ origin = flow.source := by
  simp only [origins, List.map_append, List.map_cons, List.map_nil, List.mem_append,
    List.mem_singleton, or_right_comm]

/-- A function whose address is taken, a type that is allocated, or a value of unknown origin. -/
def Facts.Knows (facts : Facts) : Atom → Prop
  | .func id => id ∈ facts.addressTaken
  | .type id => id ∈ facts.allocations
  | .opaqueValue => True

/-- The facts know every atom of the origin. -/
def Facts.Covers (facts : Facts) (origin : Origin) : Prop := ∀ a ∈ origin.atoms, facts.Knows a

/-- The facts know every atom that they mention. -/
def Facts.Recorded (facts : Facts) : Prop := ∀ origin ∈ facts.origins, facts.Covers origin

theorem Facts.Covers.mono {facts facts' : Facts} {origin : Origin} (h : facts.Covers origin)
    (haddress : facts.addressTaken ⊆ facts'.addressTaken)
    (halloc : facts.allocations ⊆ facts'.allocations) : facts'.Covers origin := by
  intro a ha
  have hknown := h a ha
  cases a with
  | func id => exact haddress hknown
  | type id => exact halloc hknown
  | opaqueValue => trivial

/-- The kinds of the functions that stand for another one and only call it. -/
def FunctionKind.isWrapper : FunctionKind → Bool
  | .bound | .thunk | .instantiation => true
  | _ => false

/-- The facts of a function that only calls another one. -/
def Facts.calling (target : FuncId) : Facts :=
  { sites := [{ line := 0, target := .static target }] }

namespace Resolve

variable {α β : Type} {s t u : State}

/-- The function is the current one, or variables have been declared in it. -/
def State.Declares (s : State) (id : FuncId) : Prop :=
  id = s.frame.id ∨ ∃ name ty, (s.scopes[id]?.getD {}).vars.get? name = some ty

/-- The function exists, as far as the tables of the program are in order. -/
def State.Names (s : State) (id : FuncId) : Prop :=
  id < s.program.functions.length ∨ s.program.Lists id

/-- The slot belongs to a function with variables, to the current function or to a call in it that
has been recorded, or to a declared type. -/
def State.Holds (s : State) : Slot → Prop
  | .localVar id _ => s.Declares id
  | .result id _ => id = s.frame.id
  | .callResult id site _ => id = s.frame.id ∧ site < s.frame.facts.sites.length
  | .field owner _ => owner < s.program.decls.types.length
  | .global _ _ => True

/-- The function that is called by name exists, and the interface that a method is called
on asks for it. -/
def State.Calls (s : State) : CallTarget → Prop
  | .static func => s.Names func
  | .invoke iface method => method ∈ s.program.decls.interfaceMethods iface
  | .dynamic _ => True

section

variable {id : FuncId} {owner : TypeId} {name : String}

theorem holds_localVar (h : s.Declares id) : s.Holds (.localVar id name) := h

theorem holds_field (h : owner < s.program.decls.types.length) : s.Holds (.field owner name) := h

theorem holds_global (s : State) (pkg name : String) : s.Holds (.global pkg name) := trivial

theorem calls_static (h : s.Names id) : s.Calls (.static id) := h

theorem calls_invoke (h : name ∈ s.program.decls.interfaceMethods owner) :
    s.Calls (.invoke owner name) := h

theorem calls_dynamic (s : State) (callee : Origin) : s.Calls (.dynamic callee) := trivial

end

/-- The origin is covered by what has been recorded of the current function. -/
structure State.Covers (s : State) (origin : Origin) : Prop where
  atoms : s.frame.facts.Covers origin
  slots : ∀ slot ∈ origin.slots, s.Holds slot

/-- Which kind of wrapper the function may be given, and what its key then has behind the key of the
function: a method of a type may be bound or made a function of its receiver, and a generic function
may be taken at some types. -/
inductive State.MayWrap (s : State) (target : FuncId) : FunctionKind → String → Prop
  | bound (h : s.program.decls.HasMethod target) : MayWrap s target .bound "$bound"
  | thunk (h : s.program.decls.HasMethod target) : MayWrap s target .thunk "$thunk"
  | instantiation {g : Function} (hg : s.program.functions[target]? = some g)
      (hgeneric : g.isGeneric = true) (args : String) :
      MayWrap s target .instantiation ("[" ++ args ++ "]")

/-- The function is a wrapper that may be made for this one. -/
structure State.Wraps (s : State) (f : Function) (target : FuncId) : Prop where
  package : f.package = none
  plain : f.isGeneric = false
  key : ∃ ending, s.MayWrap target f.kind ending ∧
    f.key = ((s.program.functions[target]?).getD default).key ++ ending

/-- The function is a stub without facts or a wrapper with its call. -/
inductive State.Made (s : State) (f : Function) : Facts → Prop
  | stub (hkind : f.kind.isWrapper = false) (hplain : f.isGeneric = false) : Made s f {}
  | wrapper {target : FuncId} (hwraps : s.Wraps f target) : Made s f (.calling target)

/-- A value all of whose origins are covered. -/
structure State.CoversValue (s : State) (value : Value) : Prop where
  origin : s.Covers value.origin
  results : ∀ r ∈ value.results, s.Covers r.2

/-- The state with other facts of the current function. -/
def State.record (s : State) (f : Facts → Facts) : State :=
  { s with frame := { s.frame with facts := f s.frame.facts } }

@[simp] theorem State.withFunction_functions (s : State) (f : Function) (facts : Facts) :
    (s.withFunction f facts).program.functions =
      s.program.functions ++ [f.numbered s.program.functions.length] := rfl

@[simp] theorem State.withFunction_facts (s : State) (f : Function) (facts : Facts) :
    (s.withFunction f facts).program.facts = s.program.facts ++ [facts] := rfl

@[simp] theorem State.withFunction_scopes (s : State) (f : Function) (facts : Facts) :
    (s.withFunction f facts).scopes = s.scopes ++ [({} : Scope)] := rfl

@[simp] theorem State.withFunction_frame (s : State) (f : Function) (facts : Facts) :
    (s.withFunction f facts).frame = s.frame := rfl

/-- What one action does to the state. -/
inductive Step (s : State) : State → Prop
  | line (line : Nat) : Step s { s with frame := { s.frame with line } }
  | scope (scope : Scope) : Step s { s with frame := { s.frame with scope } }
  | problem (d : Diagnostic) : Step s { s with diagnostics := s.diagnostics ++ [d] }
  | globals (globals : Table (String × String) Ty) :
      Step s { s with program := { s.program with globals } }
  | site (site : CallSite) (h : ∀ origin ∈ site.origins, s.Covers origin)
      (htarget : s.Calls site.target) :
      Step s (s.record fun facts => { facts with sites := facts.sites ++ [site] })
  | flow (flow : Flow) (h : s.Covers flow.source) (hsink : s.Holds flow.sink) :
      Step s (s.record fun facts => { facts with flows := facts.flows ++ [flow] })
  | address (id : FuncId) (h : s.Names id) :
      Step s (s.record fun facts => { facts with addressTaken := facts.addressTaken ++ [id] })
  | allocation (id : TypeId) (h : s.program.decls.isInterface id = false)
      (hid : id < s.program.decls.types.length) :
      Step s (s.record fun facts => { facts with allocations := facts.allocations ++ [id] })
  | function (f : Function) (facts : Facts) (hnew : s.program.funcByKey? f.key = none)
      (hbody : f.body = none) (hlinks : f.parent = none ∧ f.closures = [])
        (hmade : s.Made f facts) :
      Step s (s.withFunction f facts)

/-- Any number of steps. -/
abbrev Steps : State → State → Prop := Relation.ReflTransGen Step

/-- What every step keeps holds behind any number of them. -/
theorem Steps.preserves {P : State → Prop} (hstep : ∀ {s t : State}, Step s t → P s → P t)
    (h : Steps s t) (hs : P s) : P t := by
  induction h with
  | refl => exact hs
  | tail _ hlast ih => exact hstep hlast ih

/-- What no step changes is the same behind any number of them. -/
theorem Steps.fixes {f : State → α} (hstep : ∀ {s t : State}, Step s t → f t = f s)
    (h : Steps s t) : f t = f s :=
  h.preserves (P := fun t => f t = f s) (fun hlast ih => (hstep hlast).trans ih) rfl

theorem names_of_hasMethod {id : FuncId} (h : s.program.decls.HasMethod id) : s.Names id := by
  obtain ⟨t, ht, m, hm, rfl⟩ := h
  exact Or.inr (.method ht hm)

theorem State.MayWrap.names {target : FuncId} {kind : FunctionKind} {ending : String}
    (h : s.MayWrap target kind ending) : s.Names target := by
  cases h with
  | bound h => exact names_of_hasMethod h
  | thunk h => exact names_of_hasMethod h
  | instantiation hg _ _ => exact Or.inl (List.getElem?_eq_some_iff.mp hg).1

theorem State.Wraps.names {f : Function} {target : FuncId} (h : s.Wraps f target) :
    s.Names target := by
  obtain ⟨_, hwraps, _⟩ := h.key
  exact hwraps.names

theorem State.Made.isGeneric {f : Function} {facts : Facts} (h : s.Made f facts) :
    f.isGeneric = false := by
  cases h with
  | stub _ hplain => exact hplain
  | wrapper hwraps => exact hwraps.plain

theorem State.Made.origins_eq_nil {f : Function} {facts : Facts} (h : s.Made f facts) :
    facts.origins = [] := by
  cases h <;> rfl

/-! ## What is recorded stays recorded -/

theorem Step.subset (h : Step s t) :
    s.frame.facts.addressTaken ⊆ t.frame.facts.addressTaken ∧
      s.frame.facts.allocations ⊆ t.frame.facts.allocations := by
  cases h <;> simp [State.record]

theorem Step.frame_id (h : Step s t) : t.frame.id = s.frame.id := by
  cases h <;> rfl

theorem Steps.frame_id (h : Steps s t) : t.frame.id = s.frame.id := h.fixes Step.frame_id

/-- A new function begins with an empty scope, so no function loses its variables. -/
theorem Step.declares {id : FuncId} (h : Step s t) (hs : s.Declares id) : t.Declares id := by
  refine hs.imp (fun hid => hid.trans h.frame_id.symm) ?_
  rintro ⟨name, ty, hvar⟩
  refine ⟨name, ty, ?_⟩
  cases h with
  | function f facts _ _ _ _ =>
    by_cases hlt : id < s.scopes.length
    · rwa [State.withFunction_scopes, List.getElem?_append_left hlt]
    · rw [List.getElem?_eq_none (Nat.le_of_not_lt hlt)] at hvar
      cases hvar
  | _ => exact hvar

theorem Step.decls_eq (h : Step s t) : t.program.decls = s.program.decls := by
  cases h <;> rfl

theorem Step.sites_le (h : Step s t) : s.frame.facts.sites.length ≤ t.frame.facts.sites.length := by
  cases h <;> simp [State.record]

theorem Step.packages_eq (h : Step s t) : t.program.packages = s.program.packages := by
  cases h <;> rfl

theorem Step.functions_prefix (h : Step s t) : s.program.functions <+: t.program.functions := by
  cases h with
  | function f facts _ _ _ _ => exact List.prefix_append _ _
  | _ => exact List.prefix_rfl

theorem Step.names {id : FuncId} (h : Step s t) (hs : s.Names id) : t.Names id := by
  rcases hs with hlt | hlists
  · exact Or.inl (Nat.lt_of_lt_of_le hlt h.functions_prefix.length_le)
  · exact Or.inr (hlists.mono h.decls_eq h.packages_eq h.functions_prefix.subset)

theorem Step.holds {slot : Slot} (h : Step s t) (hs : s.Holds slot) : t.Holds slot := by
  cases slot with
  | localVar id name => exact h.declares hs
  | result id i => exact hs.trans h.frame_id.symm
  | callResult id site i => exact ⟨hs.1.trans h.frame_id.symm, Nat.lt_of_lt_of_le hs.2 h.sites_le⟩
  | field owner name =>
    show owner < t.program.decls.types.length
    rw [h.decls_eq]
    exact hs
  | global pkg name => trivial

theorem Step.covers {origin : Origin} (h : Step s t) (hs : s.Covers origin) : t.Covers origin :=
  ⟨hs.atoms.mono h.subset.1 h.subset.2, fun slot hslot => h.holds (hs.slots slot hslot)⟩

theorem Steps.names {id : FuncId} (h : Steps s t) (hs : s.Names id) : t.Names id :=
  h.preserves Step.names hs

theorem Steps.decls_eq (h : Steps s t) : t.program.decls = s.program.decls := h.fixes Step.decls_eq

theorem Steps.covers {origin : Origin} (h : Steps s t) (hs : s.Covers origin) : t.Covers origin :=
  h.preserves Step.covers hs

/-! ## Rules -/

/-- From `s` the computation takes steps only, and its answer is as `Q` says in the last state. -/
def Reads (s : State) (m : M α) (Q : State → α → Prop) : Prop :=
  Steps s (m.run s).2 ∧ Q (m.run s).2 (m.run s).1

/-- From `s` the computation takes steps only. -/
abbrev Acts (s : State) (m : M α) : Prop := Reads s m fun _ _ => True

theorem Reads.pure {a : α} {Q : State → α → Prop} (h : Q s a) : Reads s (Pure.pure a) Q :=
  ⟨Relation.ReflTransGen.refl, h⟩

theorem Reads.bind {m : M α} {k : α → M β} {R : State → α → Prop} {Q : State → β → Prop}
    (hm : Reads s m R) (hk : ∀ t a, Steps s t → R t a → Reads t (k a) Q) : Reads s (m >>= k) Q := by
  obtain ⟨hsteps, hR⟩ := hm
  obtain ⟨hsteps', hQ⟩ := hk _ _ hsteps hR
  exact ⟨hsteps.trans hsteps', hQ⟩

theorem Acts.bind {m : M α} {k : α → M β} {Q : State → β → Prop} (hm : Acts s m)
    (hk : ∀ t a, Steps s t → Reads t (k a) Q) : Reads s (m >>= k) Q :=
  Reads.bind hm fun t a hsteps _ => hk t a hsteps

theorem Reads.get {k : State → M β} {Q : State → β → Prop} (h : Reads s (k s) Q) :
    Reads s (get >>= k) Q := h

theorem Reads.modify {f : State → State} {Q : State → Unit → Prop} (h : Step s (f s))
    (hQ : Q (f s) ()) : Reads s (modify f) Q :=
  ⟨Relation.ReflTransGen.single h, hQ⟩

theorem Reads.set {Q : State → PUnit → Prop} (h : Step s t) (hQ : Q t ⟨⟩) :
    Reads s (MonadStateOf.set t) Q :=
  ⟨Relation.ReflTransGen.single h, hQ⟩

/-! ## Actions -/

/-- An origin without slots. -/
theorem covers_atoms {origin : Origin} (hslots : origin.slots = [])
    (h : s.frame.facts.Covers origin) : s.Covers origin :=
  ⟨h, by simp [hslots]⟩

theorem covers_empty (s : State) : s.Covers {} :=
  covers_atoms rfl (by simp [Facts.Covers])

theorem covers_slot {slot : Slot} (h : s.Holds slot) : s.Covers (.slot slot) := by
  refine ⟨by simp [Facts.Covers, Origin.slot], fun slot' hslot => ?_⟩
  rw [List.mem_singleton.mp hslot]
  exact h

theorem covers_unseen (s : State) : s.Covers .unseen := by
  refine covers_atoms rfl fun a ha => ?_
  rw [List.mem_singleton.mp ha]
  trivial

/-- The function in which a local variable is found declares it. -/
theorem declares_of_localVar? {name : String} {id : FuncId} {ty : Ty}
    (h : s.localVar? name = some (id, ty)) : s.Declares id := by
  unfold State.localVar? at h
  split at h
  · exact Or.inl (congrArg Prod.fst (Option.some.inj h)).symm
  · obtain ⟨outer, _, hfound⟩ := List.exists_of_findSome?_eq_some h
    obtain ⟨ty', hvar, heq⟩ := Option.map_eq_some_iff.mp hfound
    obtain ⟨rfl, rfl⟩ := Prod.mk.inj heq
    exact Or.inr ⟨name, ty', hvar⟩

theorem acts_setLine (line : Nat) : Acts s (setLine line) :=
  .modify (.line line) trivial

theorem acts_modifyScope (f : Scope → Scope) : Acts s (modifyScope f) :=
  .modify (.scope (f s.frame.scope)) trivial

theorem acts_report (problem : Problem) : Acts s (report problem) :=
  .modify (.problem _) trivial

/-- The number that a call gets is that of a recorded call from then on. -/
theorem reads_addSite {target : CallTarget} {recv : Option Origin} {args : List Origin}
    (hcalls : s.Calls target) (htarget : ∀ callee, target = .dynamic callee → s.Covers callee)
    (hrecv : ∀ origin ∈ recv, s.Covers origin) (hargs : ∀ origin ∈ args, s.Covers origin) :
    Reads s (addSite target recv args) fun t site =>
      t.frame.id = s.frame.id ∧ site < t.frame.facts.sites.length := by
  refine .get (.bind (R := fun t _ => t.frame.id = s.frame.id ∧
    s.frame.facts.sites.length < t.frame.facts.sites.length)
    (.modify (.site _ (fun origin horigin => ?_) hcalls) ⟨rfl, by simp⟩) fun _ _ _ h => .pure h)
  rcases List.mem_append.mp horigin with h | h
  · rcases List.mem_append.mp h with h | h
    · exact hrecv origin (Option.mem_toList.mp h)
    · exact hargs origin h
  · cases target with
    | dynamic callee =>
      rw [List.mem_singleton.mp h]
      exact htarget callee rfl
    | static func => exact absurd h (by simp)
    | invoke iface method => exact absurd h (by simp)

theorem acts_addFlow {source : Origin} {sink : Slot} (h : s.Covers source) (hsink : s.Holds sink) :
    Acts s (addFlow source sink) := by
  unfold addFlow
  split
  · exact .pure trivial
  · exact .modify (.flow ⟨source, sink⟩ h hsink) trivial

theorem acts_checkType (ty : Ty) : Acts s (checkType ty) := by
  induction ty with
  | named pkg name =>
    refine .get ?_
    split
    · exact .pure trivial
    · split
      · exact .pure trivial
      · split
        · split
          · exact .pure trivial
          · exact acts_report _
        · exact acts_report _
  | pointer t ih => exact ih
  | slice t ih => exact ih
  | map t ih => exact ih
  | chan t ih => exact ih
  | _ => exact .pure trivial

theorem acts_checkMember (operand : Outline.Expr) (ty : Ty) (name : String) :
    Acts s (checkMember operand ty name) := by
  refine .get ?_
  split
  · exact .pure trivial
  · split
    · exact acts_report _
    · exact .pure trivial

/-- A function used as a value is covered, because its address has just been taken. -/
theorem reads_funcValue {id : FuncId} (h : s.Names id) :
    Reads s (funcValue id) fun t value => t.CoversValue value := by
  refine .bind (R := fun t _ => id ∈ t.frame.facts.addressTaken)
    (.modify (.address id h) (by simp)) fun t _ _ hid => ?_
  refine .get (.pure ⟨covers_atoms rfl fun a ha => ?_, by simp⟩)
  rw [List.mem_singleton.mp ha]
  exact hid

/-- The origin of an allocated object. -/
theorem reads_allocate (ty : Ty) :
    Reads s (allocate ty) fun t found => ∀ id ∈ found, id ∈ t.frame.facts.allocations := by
  unfold allocate
  split
  · refine .get ?_
    dsimp only
    split
    · exact .pure (by simp)
    · split
      · exact .pure (by simp)
      · rename_i id hid hconcrete
        refine .bind (R := fun t _ => id ∈ t.frame.facts.allocations)
          (.modify (.allocation id (by simpa using hconcrete) (Universe.lt_of_lookup hid))
            (by simp))
          fun t _ _ hid => .pure ?_
        simpa using hid
  · exact .pure (by simp)

/-- The function with the key is there afterwards, whether it was there before or not. -/
theorem reads_addFunction {f : Function} {facts : Facts} (hbody : f.body = none)
    (hlinks : f.parent = none ∧ f.closures = []) (hmade : s.Made f facts) :
    Reads s (addFunction f facts) fun t id => t.Names id := by
  refine .get ?_
  split
  · rename_i hfound
    exact .pure (Or.inl (Program.lt_of_funcByKey? hfound))
  · rename_i hnew
    refine .bind (R := fun t _ => s.program.functions.length < t.program.functions.length)
      (.set (.function f facts hnew hbody hlinks hmade) (by simp)) fun _ _ _ hlt =>
        .pure (Or.inl hlt)

theorem reads_wrapper {target : FuncId} {ending : String} {kind : FunctionKind}
    (h : s.MayWrap target kind ending) (signature : Outline.Signature) :
    Reads s (wrapper target ending kind signature) fun t id => t.Names id :=
  .get (reads_addFunction rfl ⟨rfl, rfl⟩ (.wrapper ⟨rfl, rfl, ending, h, rfl⟩))

theorem reads_boundMethod {method : FuncId} (h : s.program.decls.HasMethod method) :
    Reads s (boundMethod method) fun t id => t.Names id :=
  .get (reads_wrapper (.bound h) _)

theorem reads_thunk {method : FuncId} (h : s.program.decls.HasMethod method) :
    Reads s (thunk method) fun t id => t.Names id :=
  .get (reads_wrapper (.thunk h) _)

theorem reads_instantiate {id : FuncId} (h : s.Names id) (typeArgs argTypes : List Ty) :
    Reads s (instantiate id typeArgs argTypes) fun t target => t.Names target := by
  refine .get ?_
  dsimp only
  split
  · rename_i hgeneric
    cases hid : s.program.functions[id]? with
    -- the function that stands in for a missing one is not generic
    | none =>
      rw [hid] at hgeneric
      exact absurd hgeneric (by decide)
    | some g =>
      rw [hid, Option.getD_some] at hgeneric
      exact reads_wrapper (.instantiation hid hgeneric _) _
  · exact .pure h

theorem reads_external (path name : String) :
    Reads s (external path name) fun t id => t.Names id :=
  reads_addFunction rfl ⟨rfl, rfl⟩ (.stub rfl rfl)

theorem acts_declare (name : String) (ty : Ty) {origin : Origin} (h : s.Covers origin) :
    Acts s (declare name ty origin) := by
  unfold declare
  split
  · exact .pure trivial
  · refine .get ?_
    split
    · exact Acts.bind (.set (.globals _) trivial) fun t _ hsteps =>
        acts_addFlow (hsteps.covers h) (holds_global t _ _)
    · exact (acts_modifyScope _).bind fun t _ hsteps =>
        acts_addFlow (hsteps.covers h) (holds_localVar (Or.inl hsteps.frame_id.symm))

end Resolve

end CallAtlas
