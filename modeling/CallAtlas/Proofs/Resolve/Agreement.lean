import CallAtlas.Proofs.Resolve.Alike
import CallAtlas.Proofs.Resolve.Mute
import CallAtlas.Proofs.Resolve.Wrappers

/-!
# Computations that agree

Two computations agree if from states that are alike they come to the same answer and leave the
same calls behind: the current function calls functions with the same keys, and the requested
functions that have been added, with what they call, are the same (`Effect`). Where they come
from different states, one of them may add what the other one finds, so effects are compared as
what is there afterwards.

This module has the rules for putting such statements together and one of them for every action that
matters to calls. `Agree` is about reading expressions, which leaves the view of a state, and
`Follow` about reading statements, which does not.
-/

set_option autoImplicit false

namespace CallAtlas

/-- Some site calls a function with the key by name. -/
def Program.CallsKey (p : Program) (facts : Facts) (key : String) : Prop :=
  ∃ site ∈ facts.sites, ∃ id f, site.target = .static id ∧ p.functions[id]? = some f ∧ f.key = key

namespace Resolve

variable {α α' β β' : Type} {b : Program} {x : Hidden} {s s' t t' u : State}

/-! ## Effects -/

/-- A call of the current function, or a requested function with its call. -/
inductive Effect where
  | call (key : String)
  | wrap (key target : String)

/-- The effect is there. -/
def State.Has (b : Program) (s : State) : Effect → Prop
  | .call key => s.program.CallsKey s.frame.facts key
  | .wrap key target => ∃ id f facts, b.functions.length ≤ id ∧ s.program.functions[id]? = some f ∧
      f.key = key ∧ s.program.facts[id]? = some facts ∧ s.program.CallsKey facts target

/-- From one state another one is reached by effects only. -/
structure Leads (b : Program) (s t : State) (effects : Effect → Prop) : Prop where
  stands : Over b t
  functions : s.program.functions <+: t.program.functions
  gains : ∀ e, t.Has b e ↔ s.Has b e ∨ effects e

theorem Leads.refl (hs : Over b s) : Leads b s s fun _ => False :=
  ⟨hs, List.prefix_rfl, fun e => by rw [or_false]⟩

theorem Leads.trans {effects effects' : Effect → Prop} (h : Leads b s t effects)
    (h' : Leads b t u effects') : Leads b s u fun e => effects e ∨ effects' e :=
  ⟨h'.stands, h.functions.trans h'.functions, fun e => by rw [h'.gains, h.gains, or_assoc]⟩

theorem Leads.congr {effects effects' : Effect → Prop} (h : Leads b s t effects)
    (heffects : ∀ e, effects e ↔ effects' e) : Leads b s t effects' :=
  ⟨h.stands, h.functions, fun e => by rw [h.gains, heffects]⟩

/-- The state without the names that are declared and without what matters to calls by name as
little as the line does. -/
def State.core (s : State) : State :=
  { s.quiet with
    program := { s.program with globals := ∅ }
    scopes := []
    frame := { s.quiet.frame with scope := {} } }

theorem Over.core (hs : Over b s) (h : t.core = s.core) : Over b t := by
  have hs' : Over b s.core := ⟨hs.functions, hs.packages, hs.decls, hs.nodup,
    hs.length, hs.requested, hs.targets, hs.current⟩
  rw [← h] at hs'
  exact ⟨hs'.functions, hs'.packages, hs'.decls, hs'.nodup, hs'.length, hs'.requested,
    hs'.targets, hs'.current⟩

/-- What does not touch the core has no effects. -/
theorem leads_of_core (hs : Over b s) (h : t.core = s.core) : Leads b s t fun _ => False := by
  refine ⟨hs.core h, ?_, fun e => ?_⟩
  · have hfunctions : t.core.program.functions = s.core.program.functions := by rw [h]
    exact ⟨[], (List.append_nil _).trans hfunctions.symm⟩
  · rw [or_false]
    have hhas : t.core.Has b e ↔ s.core.Has b e := by rw [h]
    cases e <;> exact hhas

theorem leads_of_quiet (hs : Over b s) (h : t.quiet = s.quiet) : Leads b s t fun _ => False := by
  refine leads_of_core hs ?_
  show t.quiet.core = s.quiet.core
  rw [h]

theorem view_of_quiet (h : t.quiet = s.quiet) : t.view = s.view := by
  show t.quiet.view = s.quiet.view
  rw [h]

/-! ## Rules -/

/-- From their states the computations have the same effects, leave the views, and answer as `Q`
says. -/
def Agree (b : Program) (s s' : State) (m : M α) (m' : M α') (Q : State → State → α → α' → Prop) :
    Prop :=
  ∃ effects, Leads b s (m.after s) effects ∧ Leads b s' (m'.after s') effects ∧
    (m.after s).view = s.view ∧ (m'.after s').view = s'.view ∧
    Q (m.after s) (m'.after s') (m.answer s) (m'.answer s')

theorem Agree.pure {a : α} {a' : α'} {Q : State → State → α → α' → Prop} (h : Alike b x s s')
    (hQ : Q s s' a a') : Agree b s s' (Pure.pure a) (Pure.pure a') Q :=
  ⟨_, .refl h.left, .refl h.right, rfl, rfl, hQ⟩

theorem Agree.get {k : State → M α} {k' : State → M α'} {Q : State → State → α → α' → Prop}
    (h : Agree b s s' (k s) (k' s') Q) : Agree b s s' (get >>= k) (get >>= k') Q := h

theorem Agree.bind {m : M α} {m' : M α'} {k : α → M β} {k' : α' → M β'}
    {R : State → State → α → α' → Prop} {Q : State → State → β → β' → Prop} (h : Alike b x s s')
    (hm : Agree b s s' m m' R)
    (hk : ∀ t t' a a', Alike b x t t' → s.program.functions <+: t.program.functions →
      s'.program.functions <+: t'.program.functions → R t t' a a' → Agree b t t' (k a) (k' a') Q) :
    Agree b s s' (m >>= k) (m' >>= k') Q := by
  obtain ⟨effects, hleft, hright, hview, hview', hR⟩ := hm
  obtain ⟨effects', hleft', hright', hview₂, hview₂', hQ⟩ :=
    hk _ _ _ _ (h.mono hleft.stands hright.stands hview hview') hleft.functions hright.functions hR
  exact ⟨_, hleft.trans hleft', hright.trans hright', hview₂.trans hview, hview₂'.trans hview', hQ⟩

/-- Of mute computations only the answers matter. -/
theorem Agree.mute {m : M α} {m' : M α'} {Q : State → State → α → α' → Prop} (h : Alike b x s s')
    (hm : Mute m) (hm' : Mute m') (hQ : Q (m.after s) (m'.after s') (m.answer s) (m'.answer s')) :
    Agree b s s' m m' Q :=
  ⟨_, leads_of_quiet h.left (hm s), leads_of_quiet h.right (hm' s'), view_of_quiet (hm s),
    view_of_quiet (hm' s'), hQ⟩

/-- The answers of mute computations may be forgotten. -/
theorem Agree.after_mute {m : M α} {m' : M α'} {k : α → M β} {k' : α' → M β'}
    {Q : State → State → β → β' → Prop} (h : Alike b x s s') (hm : Mute m) (hm' : Mute m')
    (hk : ∀ t t' a a', Alike b x t t' → Agree b t t' (k a) (k' a') Q) :
    Agree b s s' (m >>= k) (m' >>= k') Q :=
  .bind h (.mute h hm hm' (Q := fun _ _ _ _ => True) trivial) fun t t' a a' ht _ _ _ =>
    hk t t' a a' ht

/-! ## Functions -/

/-- A function of one state shows the same as a function of the other one. -/
def Same (s s' : State) (id id' : FuncId) : Prop :=
  ∃ f f', s.program.functions[id]? = some f ∧ s'.program.functions[id']? = some f' ∧
    f.face = f'.face

theorem Same.mono {id id' : FuncId} (h : Same s s' id id')
    (hs : s.program.functions <+: t.program.functions)
    (hs' : s'.program.functions <+: t'.program.functions) :
    Same t t' id id' := by
  obtain ⟨f, f', hf, hf', hface⟩ := h
  exact ⟨f, f', getElem?_of_extends hs hf, getElem?_of_extends hs' hf', hface⟩

/-- A function of the program shows the same in all states. -/
theorem Alike.same (h : Alike b x s s') {id : FuncId} (hid : id < b.functions.length) :
    Same s s' id id := by
  have hf := h.left.function hid
  have hf' := h.right.function hid
  rw [List.getElem?_eq_getElem hid] at hf hf'
  obtain ⟨f, hf, hface⟩ := Option.map_eq_some_iff.mp hf
  obtain ⟨f', hf', hface'⟩ := Option.map_eq_some_iff.mp hf'
  exact ⟨f, f', hf, hf', hface.trans hface'.symm⟩

theorem callsKey_iff {p q : Program} {facts : Facts} {key : String}
    (hgrown : p.functions <+: q.functions)
    (htargets : ∀ site ∈ facts.sites, ∀ id, site.target = .static id → id < p.functions.length) :
    q.CallsKey facts key ↔ p.CallsKey facts key := by
  refine ⟨?_, ?_⟩
  · rintro ⟨site, hsite, id, f, htarget, hf, hkey⟩
    have hold := List.getElem?_eq_getElem (htargets site hsite id htarget)
    rw [getElem?_of_extends hgrown hold] at hf
    exact ⟨site, hsite, id, f, htarget, hold.trans hf, hkey⟩
  · rintro ⟨site, hsite, id, f, htarget, hf, hkey⟩
    exact ⟨site, hsite, id, f, htarget, getElem?_of_extends hgrown hf, hkey⟩

/-! ## Recording a call -/

/-- The call of a function by name is an effect, and that of anything else is none. -/
theorem leads_addSite (hs : Over b s) {target : CallTarget} (recv : Option Origin)
    (args : List Origin) (htarget : ∀ id, target = .static id → id < s.program.functions.length) :
    Leads b s ((addSite target recv args).after s) fun e =>
      ∃ id f, target = .static id ∧ s.program.functions[id]? = some f ∧ e = .call f.key := by
  refine ⟨⟨hs.functions, hs.packages, hs.decls, hs.nodup, hs.length, hs.requested,
    fun site hsite id hid => ?_, hs.current⟩, List.prefix_rfl, fun e => ?_⟩
  · rcases List.mem_append.mp hsite with hsite | hsite
    · exact hs.targets site hsite id hid
    · rw [List.mem_singleton.mp hsite] at hid
      exact htarget id hid
  · cases e with
    | call key =>
      refine ⟨?_, ?_⟩
      · rintro ⟨site, hsite, id, f, hid, hf, rfl⟩
        rcases List.mem_append.mp hsite with hsite | hsite
        · exact Or.inl ⟨site, hsite, id, f, hid, hf, rfl⟩
        · rw [List.mem_singleton.mp hsite] at hid
          exact Or.inr ⟨id, f, hid, hf, rfl⟩
      · rintro (⟨site, hsite, hcalls⟩ | ⟨id, f, hid, hf, hkey⟩)
        · exact ⟨site, List.mem_append_left _ hsite, hcalls⟩
        · refine ⟨_, List.mem_append_right _ (List.mem_singleton_self _), id, f, hid, hf, ?_⟩
          exact (Effect.call.inj hkey).symm
    | wrap key target =>
      refine ⟨Or.inl, fun h => h.resolve_right ?_⟩
      rintro ⟨id, f, _, _, hkey⟩
      cases hkey

theorem agree_addSite {target target' : CallTarget} (recv recv' : Option Origin)
    (args args' : List Origin) (h : Alike b x s s')
    (htarget : ∀ id, target = .static id → ∃ id', target' = .static id' ∧ Same s s' id id')
    (htarget' : ∀ id', target' = .static id' → ∃ id, target = .static id ∧ Same s s' id id') :
    Agree b s s' (addSite target recv args) (addSite target' recv' args') fun _ _ _ _ => True := by
  refine ⟨_, leads_addSite h.left recv args fun id hid => ?_, ?_, rfl, rfl, trivial⟩
  · obtain ⟨id', _, f, f', hf, _⟩ := htarget id hid
    exact (List.getElem?_eq_some_iff.mp hf).1
  · have hright := leads_addSite h.right recv' args' fun id' hid' => by
      obtain ⟨id, _, f, f', _, hf', _⟩ := htarget' id' hid'
      exact (List.getElem?_eq_some_iff.mp hf').1
    refine ⟨hright.stands, hright.functions,
      fun e => (hright.gains e).trans (or_congr_right ⟨?_, ?_⟩)⟩
    · rintro ⟨id', f', hid', hf', rfl⟩
      obtain ⟨id, hid, f, g', hf, hg', hface⟩ := htarget' id' hid'
      obtain rfl := Option.some.inj (hg'.symm.trans hf')
      exact ⟨id, f, hid, hf, congrArg Effect.call (Function.key_eq_of_face hface.symm)⟩
    · rintro ⟨id, f, hid, hf, rfl⟩
      obtain ⟨id', hid', g, f', hg, hf', hface⟩ := htarget id hid
      obtain rfl := Option.some.inj (hg.symm.trans hf)
      exact ⟨id', f', hid', hf', congrArg Effect.call (Function.key_eq_of_face hface)⟩

theorem agree_addSite_static {id id' : FuncId} (recv recv' : Option Origin)
    (args args' : List Origin) (h : Alike b x s s') (hsame : Same s s' id id') :
    Agree b s s' (addSite (.static id) recv args) (addSite (.static id') recv' args')
      fun _ _ _ _ => True := by
  refine agree_addSite recv recv' args args' h ?_ ?_
  · rintro _ ⟨⟩
    exact ⟨id', rfl, hsame⟩
  · rintro _ ⟨⟩
    exact ⟨id, rfl, hsame⟩

/-! ## Adding a function -/

theorem Requested.face_eq {f : Function} {facts : Facts} (h : Requested b f facts) :
    f.face = f := by
  cases h <;> rfl

theorem Requested.isGeneric_eq_false {f : Function} {facts : Facts} (h : Requested b f facts) :
    f.isGeneric = false := by
  cases h <;> rfl

/-- A requested function calls functions of the program. -/
theorem Requested.targets {f : Function} {facts : Facts} (h : Requested b f facts) :
    ∀ site ∈ facts.sites, ∀ id, site.target = .static id → id < b.functions.length := by
  intro site hsite id hid
  cases h with
  | wrapper hf _ =>
    rw [List.mem_singleton.mp hsite] at hid
    cases hid
    exact (List.getElem?_eq_some_iff.mp hf).1
  | external path _ => cases hsite

theorem Requested.callsKey_iff {f : Function} {facts : Facts} (h : Requested b f facts)
    (hs : Over b s) {key : String} : s.program.CallsKey facts key ↔ b.CallsKey facts key := by
  refine exists_congr fun site => and_congr_right fun hsite => exists_congr fun id => ?_
  refine ⟨?_, ?_⟩
  · rintro ⟨f, htarget, hf, hkey⟩
    have hface := hs.function (h.targets site hsite id htarget)
    rw [hf] at hface
    exact ⟨f.face, htarget, hface.symm, hkey⟩
  · rintro ⟨f, htarget, hf, hkey⟩
    have hface := (hs.function (h.targets site hsite id htarget)).trans hf
    obtain ⟨g, hg, hgface⟩ := Option.map_eq_some_iff.mp hface
    exact ⟨g, htarget, hg, by rw [← hkey, ← hgface, Function.key_face]⟩

/-- What a requested function shows: if the program has a function with its key, that
function is taken. -/
def found (b : Program) (f : Function) : Function :=
  ((b.funcByKey? f.key).bind fun id => b.functions[id]?).getD f

/-- The effects of adding a requested function. -/
def requestEffects (b : Program) (f : Function) (facts : Facts) : Effect → Prop
  | .call _ => False
  | .wrap key target => b.funcByKey? f.key = none ∧ key = f.key ∧ b.CallsKey facts target

theorem run_addFunction_of_some {f : Function} {facts : Facts} {id : FuncId}
    (h : s.program.funcByKey? f.key = some id) : (addFunction f facts).run s = (id, s) := by
  unfold addFunction
  rw [run_get_bind, h]
  rfl

theorem run_addFunction_of_none {f : Function} {facts : Facts}
    (h : s.program.funcByKey? f.key = none) :
    (addFunction f facts).run s = (s.program.functions.length, s.withFunction f facts) := by
  unfold addFunction
  rw [run_get_bind, h]
  rfl

theorem view_withFunction (s : State) (f : Function) (facts : Facts) :
    (s.withFunction f facts).view = s.view := by
  have hscopes : (fun id : FuncId => (s.scopes ++ [({} : Scope)])[id]?.getD {}) =
      fun id => s.scopes[id]?.getD {} := by
    funext id
    rcases Nat.lt_or_ge id s.scopes.length with hlt | hge
    · rw [List.getElem?_append_left hlt]
    · rw [List.getElem?_append_right hge, List.getElem?_eq_none hge]
      cases id - s.scopes.length <;> rfl
  unfold State.view State.withFunction
  rw [hscopes]

theorem Over.withFunction (hs : Over b s) {f : Function} {facts : Facts} (hf : Requested b f facts)
    (hnew : s.program.funcByKey? f.key = none) : Over b (s.withFunction f facts) where
  functions := by
    rw [State.withFunction_functions, List.map_append]
    exact hs.functions.trans (List.prefix_append _ _)
  packages := hs.packages
  decls := hs.decls
  nodup := by
    rw [State.withFunction_functions, List.map_append, List.nodup_append]
    refine ⟨hs.nodup, List.nodup_singleton _, fun key hkey key' hkey' heq => ?_⟩
    rw [heq, List.mem_singleton.mp hkey'] at hkey
    exact Program.funcByKey?_eq_none_iff.mp hnew hkey
  length := by
    rw [State.withFunction_facts, State.withFunction_functions, List.length_append,
      List.length_append, hs.length, List.length_singleton, List.length_singleton]
  requested {id} {g} hid hg := by
    rcases of_getElem?_concat hg with hold | ⟨rfl, rfl⟩
    · obtain ⟨facts', hfacts, hrequested⟩ := hs.requested hid hold
      exact ⟨facts', getElem?_of_extends (List.prefix_append _ _) hfacts, hrequested⟩
    · refine ⟨facts, ?_, hf.face_eq.symm ▸ hf⟩
      rw [← hs.length]
      exact List.getElem?_concat_length
  targets site hsite id hid := by
    rw [State.withFunction_functions, List.length_append]
    exact Nat.lt_add_right _ (hs.targets site hsite id hid)
  current := hs.current

/-- A new function is there with its call, and nothing else changes. -/
theorem gains_withFunction (hs : Over b s) {f : Function} {facts : Facts} (hf : Requested b f facts)
    (hnew : s.program.funcByKey? f.key = none) (e : Effect) :
    (s.withFunction f facts).Has b e ↔ s.Has b e ∨ requestEffects b f facts e := by
  have hgrown : s.program.functions <+: (s.withFunction f facts).program.functions :=
    List.prefix_append _ _
  cases e with
  | call key =>
    rw [requestEffects, or_false]
    exact Resolve.callsKey_iff hgrown hs.targets
  | wrap key target =>
    refine ⟨?_, ?_⟩
    · rintro ⟨id, g, facts', hid, hg, hkey, hfacts, hcalls⟩
      rcases of_getElem?_concat hg with hold | ⟨rfl, rfl⟩
      · obtain ⟨facts₀, hfacts₀, hrequested⟩ := hs.requested hid hold
        have hsame : facts₀ = facts' :=
          Option.some.inj ((getElem?_of_extends (List.prefix_append _ _) hfacts₀).symm.trans hfacts)
        rw [← hsame] at hcalls
        refine Or.inl ⟨id, g, facts₀, hid, hold, hkey, hfacts₀, ?_⟩
        exact (hrequested.callsKey_iff hs).mpr
          ((hrequested.callsKey_iff (hs.withFunction hf hnew)).mp hcalls)
      · have hsame : facts = facts' := by
          rw [← hs.length] at hfacts
          exact Option.some.inj (List.getElem?_concat_length.symm.trans hfacts)
        rw [← hsame] at hcalls
        exact Or.inr ⟨hs.funcByKey?_eq_none hnew, hkey.symm,
          (hf.callsKey_iff (hs.withFunction hf hnew)).mp hcalls⟩
    · rintro (⟨id, g, facts', hid, hg, hkey, hfacts, hcalls⟩ | ⟨_, rfl, hcalls⟩)
      · refine ⟨id, g, facts', hid, getElem?_of_extends hgrown hg, hkey, ?_, ?_⟩
        · exact getElem?_of_extends (List.prefix_append _ _) hfacts
        · obtain ⟨facts₀, hfacts₀, hrequested⟩ := hs.requested hid hg
          obtain rfl := Option.some.inj (hfacts₀.symm.trans hfacts)
          exact (hrequested.callsKey_iff (hs.withFunction hf hnew)).mpr
            ((hrequested.callsKey_iff hs).mp hcalls)
      · refine ⟨s.program.functions.length, _, facts, ?_, List.getElem?_concat_length, rfl, ?_, ?_⟩
        · have hle := hs.functions.length_le
          rwa [List.length_map] at hle
        · rw [← hs.length]
          exact List.getElem?_concat_length
        · exact (hf.callsKey_iff (hs.withFunction hf hnew)).mpr hcalls

/-- After a requested function has been added there is one with its key, and its call is there,
whether the function has been there before or not. -/
theorem leads_addFunction (hb : Ground b) (hs : Over b s) {f : Function} {facts : Facts}
    (hf : Requested b f facts) :
    Leads b s ((addFunction f facts).after s) (requestEffects b f facts) ∧
      ((addFunction f facts).after s).view = s.view ∧
      ∃ g, ((addFunction f facts).after s).program.functions[(addFunction f facts).answer s]? =
        some g ∧ g.face = found b f := by
  cases hkey : s.program.funcByKey? f.key with
  | none =>
    have hfound : found b f = f := by rw [found, hs.funcByKey?_eq_none hkey]; rfl
    rw [M.after, M.answer, run_addFunction_of_none hkey, hfound]
    exact ⟨⟨hs.withFunction hf hkey, List.prefix_append _ _, gains_withFunction hs hf hkey⟩,
      view_withFunction s f facts, _, List.getElem?_concat_length, hf.face_eq⟩
  | some id =>
    obtain ⟨g, hg, hgkey⟩ := Program.of_lastIdx?_eq_some hkey
    have hgkey : g.key = f.key := eq_of_beq hgkey
    rw [M.after, M.answer, run_addFunction_of_some hkey]
    have hleads : (∀ e, requestEffects b f facts e → s.Has b e) →
        Leads b s s (requestEffects b f facts) := fun hthere =>
      ⟨hs, List.prefix_rfl, fun e => ⟨Or.inl, fun h => h.elim (fun h => h) (hthere e)⟩⟩
    rcases Nat.lt_or_ge id b.functions.length with hlt | hge
    -- the function is one of the program
    · have hbase : b.functions[id]? = some g.face := by rw [← hs.function hlt, hg]; rfl
      have hbykey : b.funcByKey? f.key = some id := by
        rw [← hgkey, ← g.key_face]
        exact Program.funcByKey?_of_nodup hb.nodup hbase
      refine ⟨hleads fun e he => ?_, rfl, g,
        hg, by rw [found, hbykey, Option.bind_some, hbase]; rfl⟩
      cases e with
      | call key => exact he.elim
      | wrap key target =>
        rw [requestEffects, hbykey] at he
        cases he.1
    -- the function has been requested before, and so by the same request
    · obtain ⟨facts', hfacts, hrequested⟩ := hs.requested hge hg
      obtain ⟨rfl, rfl⟩ := hrequested.eq_of_key hb hf (g.key_face.trans hgkey)
      have hbykey : b.funcByKey? g.face.key = none := by
        rw [Program.funcByKey?_eq_none_iff]
        intro hmem
        obtain ⟨g', hg', hkeys⟩ := List.mem_map.mp hmem
        obtain ⟨i, hi⟩ := List.mem_iff_getElem?.mp hg'
        have hid := hs.getElem?_of_key hg hi hkeys.symm
        exact Nat.lt_irrefl _ (Nat.lt_of_lt_of_le (List.getElem?_eq_some_iff.mp hi).1 (hid ▸ hge))
      refine ⟨hleads fun e he => ?_, rfl, g, hg, by rw [found, hbykey]; exact hf.face_eq⟩
      cases e with
      | call key => exact he.elim
      | wrap key target =>
        obtain ⟨_, rfl, hcalls⟩ := he
        exact ⟨id, g, facts', hge, hg, rfl, hfacts, (hf.callsKey_iff hs).mpr hcalls⟩

theorem agree_addFunction (hb : Ground b) (h : Alike b x s s') {f : Function} {facts : Facts}
    (hf : Requested b f facts) :
    Agree b s s' (addFunction f facts) (addFunction f facts) Same := by
  obtain ⟨hleads, hview, g, hg, hface⟩ := leads_addFunction hb h.left hf
  obtain ⟨hleads', hview', g', hg', hface'⟩ := leads_addFunction hb h.right hf
  exact ⟨_, hleads, hleads', hview, hview', g, g', hg, hg', hface.trans hface'.symm⟩

/-! ## Wrappers and stubs -/

/-- Agreement is about what happens in the two states only. -/
theorem Agree.congr {m n : M α} {m' n' : M α'} {Q : State → State → α → α' → Prop}
    (hm : m.run s = n.run s) (hm' : m'.run s' = n'.run s') (h : Agree b s s' n n' Q) :
    Agree b s s' m m' Q := by
  unfold Agree M.after M.answer
  rw [hm, hm']
  exact h

theorem run_wrapper {id : FuncId} {f : Function} (hf : s.program.functions[id]? = some f)
    (ending : String) (kind : FunctionKind) (signature : Outline.Signature) :
    (wrapper id ending kind signature).run s =
      (addFunction (wrapped f.face ending kind signature) (.calling id)).run s := by
  unfold wrapper
  rw [run_get_bind, hf]
  rfl

theorem agree_wrapper (hb : Ground b) (h : Alike b x s s') {id : FuncId} {g : Function}
    (hg : b.functions[id]? = some g) {ending : String} {kind : FunctionKind}
    {signature : Outline.Signature}
    (hwraps : Wrapping b.decls g ending kind signature) :
    Agree b s s' (wrapper id ending kind signature) (wrapper id ending kind signature) Same := by
  have hlt := (List.getElem?_eq_some_iff.mp hg).1
  have hrun : ∀ {s : State}, Over b s → (wrapper id ending kind signature).run s =
      (addFunction (wrapped g ending kind signature) (.calling id)).run s := by
    intro s hs
    obtain ⟨f, hf, rfl⟩ := Option.map_eq_some_iff.mp ((hs.function hlt).trans hg)
    exact run_wrapper hf ..
  exact .congr (hrun h.left) (hrun h.right) (agree_addFunction hb h (.wrapper hg hwraps))

/-- Where a function of the program is looked up, nothing is seen but its face. -/
theorem Over.exists_face (hs : Over b s) {id : FuncId} {g : Function}
    (hg : b.functions[id]? = some g) : ∃ f, s.program.functions[id]? = some f ∧ f.face = g :=
  Option.map_eq_some_iff.mp ((hs.function (List.getElem?_eq_some_iff.mp hg).1).trans hg)

theorem agree_boundMethod (hb : Ground b) (h : Alike b x s s') {id : FuncId}
    (hid : id < b.functions.length) : Agree b s s' (boundMethod id) (boundMethod id) Same := by
  have hg := List.getElem?_eq_getElem hid
  have hrun : ∀ {s : State}, Over b s → (boundMethod id).run s =
      (wrapper id "$bound" .bound b.functions[id].signature).run s := by
    intro s hs
    obtain ⟨f, hf, hface⟩ := hs.exists_face hg
    unfold boundMethod
    rw [run_get_bind, hf, ← hface]
    rfl
  exact .congr (hrun h.left) (hrun h.right) (agree_wrapper hb h hg .bound)

theorem agree_thunk (hb : Ground b) (h : Alike b x s s') {id : FuncId}
    (hid : id < b.functions.length) : Agree b s s' (thunk id) (thunk id) Same := by
  have hg := List.getElem?_eq_getElem hid
  have hrun : ∀ {s : State}, Over b s → (thunk id).run s =
      (wrapper id "$thunk" .thunk { b.functions[id].signature with
        params := receiverParam b.decls b.functions[id] ++
          b.functions[id].signature.params }).run s := by
    intro s hs
    obtain ⟨f, hf, hface⟩ := hs.exists_face hg
    unfold thunk
    rw [run_get_bind]
    dsimp only
    rw [hf, ← hface, ← hs.decls]
    rfl
  exact .congr (hrun h.left) (hrun h.right) (agree_wrapper hb h hg .thunk)

theorem agree_external (hb : Ground b) (h : Alike b x s s') (path : String) {name : String}
    (hname : Text.isIdentifier name = true) :
    Agree b s s' (external path name) (external path name) Same :=
  agree_addFunction hb h (.external path hname)

/-- Only a function of the program is generic. -/
theorem Over.lt_of_isGeneric (hs : Over b s) {id : FuncId} {f : Function}
    (hf : s.program.functions[id]? = some f) (hgeneric : f.isGeneric = true) :
    id < b.functions.length := by
  rcases Nat.lt_or_ge id b.functions.length with hlt | hge
  · exact hlt
  · obtain ⟨facts, _, hrequested⟩ := hs.requested hge hf
    exact absurd hgeneric (Bool.not_eq_true _ ▸ hrequested.isGeneric_eq_false)

theorem agree_instantiate (hb : Ground b) (h : Alike b x s s') {id id' : FuncId}
    (hsame : Same s s' id id') (typeArgs argTypes : List Ty) :
    Agree b s s' (instantiate id typeArgs argTypes) (instantiate id' typeArgs argTypes) Same := by
  obtain ⟨f, f', hf, hf', hface⟩ := hsame
  have hgeneric : f.face.isGeneric = f'.face.isGeneric := congrArg Function.isGeneric hface
  cases hcase : f.isGeneric with
  | false =>
    have hrun : ∀ {s : State} {id : FuncId} {f : Function}, s.program.functions[id]? = some f →
        f.isGeneric = false → (instantiate id typeArgs argTypes).run s =
            (pure id : M FuncId).run s := by
      intro s id f hf hplain
      unfold instantiate
      rw [run_get_bind, hf]
      dsimp only [Option.getD_some]
      rw [hplain]
      rfl
    exact .congr (hrun hf hcase) (hrun hf' (hgeneric ▸ hcase)) (.pure h ⟨f, f', hf, hf', hface⟩)
  | true =>
    have hlt := h.left.lt_of_isGeneric hf hcase
    have hlt' := h.right.lt_of_isGeneric hf' (hgeneric ▸ hcase)
    have hg : b.functions[id]? = some f.face := by rw [← h.left.function hlt, hf]; rfl
    have hg' : b.functions[id']? = some f'.face := by rw [← h.right.function hlt', hf']; rfl
    obtain rfl := hb.eq_of_key hg hg' (Function.key_eq_of_face hface)
    have hrun : ∀ {s : State} {f : Function}, s.program.functions[id]? = some f →
        f.isGeneric = true → (instantiate id typeArgs argTypes).run s = (wrapper id
          ("[" ++ Text.join ", " (if typeArgs.isEmpty then f.face.typeParams.map
            (inferred f.face argTypes) else typeArgs.map Ty.display) ++ "]") .instantiation
            f.face.signature).run s := by
      intro s f hf hplain
      unfold instantiate
      rw [run_get_bind, hf]
      dsimp only [Option.getD_some]
      rw [hplain]
      rfl
    refine .congr (hrun hf hcase) ?_ (agree_wrapper hb h hg (.instantiation _ hcase))
    rw [hrun hf' (hgeneric ▸ hcase), hface]

/-! ## Computations that change the view -/

/-- From their states the computations have the same effects, come to the same view, and
answer as `Q` says. -/
def Follow (b : Program) (s s' : State) (m : M α) (m' : M α') (Q : α → α' → Prop) : Prop :=
  ∃ effects, Leads b s (m.after s) effects ∧ Leads b s' (m'.after s') effects ∧
    (m.after s).view = (m'.after s').view ∧ Q (m.answer s) (m'.answer s')

theorem Agree.follow {m : M α} {m' : M α'} {R : State → State → α → α' → Prop} {Q : α → α' → Prop}
    (h : Alike b {} s s') (hm : Agree b s s' m m' R) (hQ : ∀ t t' a a', R t t' a a' → Q a a') :
    Follow b s s' m m' Q := by
  obtain ⟨effects, hleft, hright, hview, hview', hR⟩ := hm
  exact ⟨effects, hleft, hright, hview.trans (h.view_eq.trans hview'.symm), hQ _ _ _ _ hR⟩

theorem Follow.pure {a : α} {a' : α'} {Q : α → α' → Prop} (h : Alike b {} s s') (hQ : Q a a') :
    Follow b s s' (Pure.pure a) (Pure.pure a') Q :=
  ⟨_, .refl h.left, .refl h.right, h.view_eq, hQ⟩

theorem Follow.bind_after {m : M α} {m' : M α'} {k : α → M β} {k' : α' → M β'} {R : α → α' → Prop}
    {Q : β → β' → Prop} (hm : Follow b s s' m m' R)
    (hk : Alike b {} (m.after s) (m'.after s') → R (m.answer s) (m'.answer s') →
      Follow b (m.after s) (m'.after s') (k (m.answer s)) (k' (m'.answer s')) Q) :
    Follow b s s' (m >>= k) (m' >>= k') Q := by
  obtain ⟨effects, hleft, hright, hview, hR⟩ := hm
  obtain ⟨effects', hleft', hright', hview', hQ⟩ :=
    hk (.of_view hleft.stands hright.stands hview) hR
  exact ⟨_, hleft.trans hleft', hright.trans hright', hview', hQ⟩

theorem Follow.bind {m : M α} {m' : M α'} {k : α → M β} {k' : α' → M β'} {R : α → α' → Prop}
    {Q : β → β' → Prop} (hm : Follow b s s' m m' R)
    (hk : ∀ t t' a a', Alike b {} t t' → R a a' → Follow b t t' (k a) (k' a') Q) :
    Follow b s s' (m >>= k) (m' >>= k') Q :=
  hm.bind_after fun ht hR => hk _ _ _ _ ht hR

/-- Of computations that have no effects only the views and the answers matter. -/
theorem Follow.of_core {m : M α} {m' : M α'} {Q : α → α' → Prop} (h : Alike b {} s s')
    (hm : (m.after s).core = s.core) (hm' : (m'.after s').core = s'.core)
    (hview : (m.after s).view = (m'.after s').view) (hQ : Q (m.answer s) (m'.answer s')) :
    Follow b s s' m m' Q :=
  ⟨_, leads_of_core h.left hm, leads_of_core h.right hm', hview, hQ⟩

theorem Follow.mute {m : M α} {m' : M α'} (h : Alike b {} s s') (hm : Mute m) (hm' : Mute m') :
    Follow b s s' m m' fun _ _ => True :=
  Agree.follow h (.mute h hm hm' (Q := fun _ _ _ _ => True) trivial) fun _ _ _ _ _ => trivial

theorem Follow.symm {m : M α} {m' : M α'} {Q : α → α' → Prop} (h : Follow b s s' m m' Q) :
    Follow b s' s m' m fun a' a => Q a a' := by
  obtain ⟨effects, hleft, hright, hview, hQ⟩ := h
  exact ⟨effects, hright, hleft, hview.symm, hQ⟩

/-- Two computations from one state have the same effects if each has those of a third one. -/
theorem Follow.trans {α'' : Type} {m : M α} {m' : M α'} {m'' : M α''}
    (h : Follow b s s m m' fun _ _ => True) (h' : Follow b s s' m' m'' fun _ _ => True) :
    Follow b s s' m m'' fun _ _ => True := by
  obtain ⟨effects, hleft, hmiddle, hview, _⟩ := h
  obtain ⟨effects', hmiddle', hright, hview', _⟩ := h'
  refine ⟨effects', ⟨hleft.stands, hleft.functions, fun e => ?_⟩, hright,
    hview.trans hview', trivial⟩
  rw [hleft.gains, ← hmiddle.gains, hmiddle'.gains]

end Resolve

end CallAtlas
