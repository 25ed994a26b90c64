import CallAtlas.Proofs.Graph
import CallAtlas.Proofs.Resolve.Exchange
import CallAtlas.Proofs.Resolve.Sites

/-!
# Reading two versions of a program

Two programs are versions of each other if their functions differ in bodies and lines only, and
bodies with one number are read to the same effect (`Versions`). Their bodies are read in step:
whenever one of them has been read in both programs, the same variables are known, the same
functions have been requested, and functions with the same keys are called (`InStep`). So the two
programs have the same calls by name.

Main statement: `Versions.mem_staticCalls`.
-/

set_option autoImplicit false

namespace CallAtlas

namespace Program

/-- The edges of the graph of the calls by name, by the keys of their functions. -/
def staticCalls (p : Program) : List (String × String) :=
  p.staticGraph.edges.filterMap fun edge => do
    let caller ← p.functions[edge.caller]?
    let callee ← p.functions[edge.callee]?
    pure (caller.key, callee.key)

theorem mem_staticCalls {p : Program} {caller callee : String} : (caller, callee) ∈ p.staticCalls ↔
    ∃ edge ∈ p.staticGraph.edges, ∃ f g, p.functions[edge.caller]? = some f ∧
      p.functions[edge.callee]? = some g ∧ f.key = caller ∧ g.key = callee := by
  refine List.mem_filterMap.trans (exists_congr fun edge => and_congr_right fun _ =>
    ⟨fun h => ?_, ?_⟩)
  · obtain ⟨f, hf, h⟩ := Option.bind_eq_some_iff.mp h
    obtain ⟨g, hg, h⟩ := Option.bind_eq_some_iff.mp h
    obtain ⟨hcaller, hcallee⟩ := Prod.mk.inj (Option.some.inj h)
    exact ⟨f, g, hf, hg, hcaller, hcallee⟩
  · rintro ⟨f, g, hf, hg, rfl, rfl⟩
    exact Option.bind_eq_some_iff.mpr ⟨f, hf, Option.bind_eq_some_iff.mpr ⟨g, hg, rfl⟩⟩

end Program

namespace Resolve

open Outline (Stmt)

variable {b p p' : Program} {s s' t t' : State} {id : FuncId} {f f' : Function}

/-! ## Bodies -/

/-- Where a body is read. -/
structure View.Within (view : View) (f : Function) : Prop where
  pkg : view.pkg = f.package.getD ""
  imports : view.imports = f.imports
  isInitializer : view.isInitializer = (f.kind == .initializer)

/-- The functions of the programs show the same, and their bodies are read to the same effect. -/
structure Versions (b p p' : Program) : Prop where
  left : p.faces = b
  right : p'.faces = b
  bodies : ∀ {id : FuncId} {f f' : Function}, p.functions[id]? = some f →
    p'.functions[id]? = some f' →
    Option.Rel (fun body body' => ∀ {s s' : State}, Alike b {} s s' → s.view.Within f →
      Follow b s s' (readStmts body) (readStmts body') fun _ _ => True) f.body f'.body

theorem agree_callInits {x : Hidden} {ids : List FuncId}
    (hids : ∀ id ∈ ids, id < b.functions.length) (h : Alike b x s s') :
    Agree b s s' (callInits ids) (callInits ids) fun _ _ _ _ => True := by
  induction ids generalizing s s' with
  | nil => exact .pure h trivial
  | cons id rest ih =>
    obtain ⟨hid, hrest⟩ := List.forall_mem_cons.mp hids
    exact .bind h (agree_addSite_static _ _ _ _ h (h.same hid)) fun t t' _ _ ht _ _ _ => ih hrest ht

theorem lt_of_mem_importedInits (hb : Ground b) (hid : id ∈ importedInits b f) :
    id < b.functions.length := by
  unfold importedInits at hid
  split at hid
  · obtain ⟨path, _, hinit⟩ := List.mem_filterMap.mp hid
    obtain ⟨q, hq, hinit⟩ := Option.bind_eq_some_iff.mp hinit
    obtain ⟨i, hi, _⟩ := Program.exists_of_package? hq
    exact hb.listed (.init (List.mem_of_getElem? hi) hinit)
  · cases hid

theorem lt_of_mem_ownInits (hb : Ground b) (hid : id ∈ ownInits b f) : id < b.functions.length := by
  unfold ownInits at hid
  split at hid
  · cases hq : b.package? (f.package.getD "") with
    | none =>
      rw [hq] at hid
      cases hid
    | some q =>
      rw [hq] at hid
      obtain ⟨i, hi, _⟩ := Program.exists_of_package? hq
      exact hb.listed (.userInit (List.mem_of_getElem? hi) hid)
  · cases hid

/-- Functions that show the same are read in the same place. -/
theorem view_enter (h : f.face = f'.face)
    (hglobals : s.program.globals.get? = s'.program.globals.get?)
    (hscopes : ∀ id : FuncId, s.scopes[id]?.getD {} = s'.scopes[id]?.getD {}) :
    (s.enter id f).view = (s'.enter id f').view := by
  have hframe : ∀ f : Function, (s.enter id f).view = (s.enter id f.face).view := fun f => rfl
  have hframe' : ∀ f : Function, (s'.enter id f).view = (s'.enter id f.face).view := fun f => rfl
  rw [hframe, hframe', h]
  unfold State.view State.enter
  simp only [hglobals, hscopes]

theorem agree_openBody (hb : Ground b) {x : Hidden} (h : Alike b x s s')
    (hface : f.face = f'.face) :
    Agree b s s' (openBody b f) (openBody b f') fun _ _ _ _ => True := by
  have hinits : importedInits b f.face = importedInits b f'.face := congrArg _ hface
  refine .after_mute h (reports_checkTypes _).mute (reports_checkTypes _).mute fun t t' _ _ ht => ?_
  rw [show importedInits b f' = importedInits b f from hinits.symm]
  exact agree_callInits (fun id hid => lt_of_mem_importedInits hb hid) ht

/-- Bodies with one number are read to the same effect from their beginning to their end. -/
theorem Versions.follow_readBody (hv : Versions b p p') (hb : Ground b)
    (hf : p.functions[id]? = some f) (hf' : p'.functions[id]? = some f') (hface : f.face = f'.face)
    {body body' : List Stmt} (hbody : f.body = some body) (hbody' : f'.body = some body')
    (h : Alike b {} (s.enter id f) (s'.enter id f')) :
    Follow b (s.enter id f) (s'.enter id f') (readBody f body) (readBody f' body')
      fun _ _ => True := by
  have hstmts := hv.bodies hf hf'
  rw [hbody, hbody'] at hstmts
  cases hstmts with
  | some hstmts =>
    have hinits : ownInits b f.face = ownInits b f'.face := congrArg _ hface
    have hopen := agree_openBody hb h hface
    have hview : ((openBody b f).after (s.enter id f)).view = (s.enter id f).view := by
      obtain ⟨_, _, _, hview, _⟩ := hopen
      exact hview
    have hfollow : Follow b (s.enter id f) (s'.enter id f')
        (do (do openBody b f; readStmts body); callInits (ownInits b f))
        (do (do openBody b f'; readStmts body'); callInits (ownInits b f')) fun _ _ => True := by
      refine .bind (.bind_after (Agree.follow h hopen fun _ _ _ _ h => h) fun ht _ => hstmts ht ?_)
        fun t t' _ _ ht _ => ?_
      · rw [hview]
        exact ⟨rfl, rfl, rfl⟩
      · rw [show ownInits b f' = ownInits b f from hinits.symm]
        exact Agree.follow ht (agree_callInits (fun id hid => lt_of_mem_ownInits hb hid) ht)
          fun _ _ _ _ _ => trivial
    obtain ⟨effects, hleads, hleads', hview, _⟩ := hfollow
    refine ⟨effects, ?_, ?_, ?_, trivial⟩
    · rw [run_readBody body h.left.packages]
      exact hleads
    · rw [run_readBody body' h.right.packages]
      exact hleads'
    · rw [run_readBody body h.left.packages, run_readBody body' h.right.packages]
      exact hview

/-! ## Between bodies -/

/-- The state when no body is being read: functions of the program and requested ones, with facts
that lead to functions. -/
structure Closed (b p : Program) (s : State) : Prop where
  functions : p.functions <+: s.program.functions
  stands : ∀ {frame : Frame}, frame.facts.sites = [] → frame.id < b.functions.length →
    Over b { s with frame }
  scopes : s.scopes.length = s.program.functions.length
  targets : ∀ {id : FuncId} {facts : Facts}, id < b.functions.length →
    s.program.facts[id]? = some facts → ∀ site ∈ facts.sites, ∀ callee,
    site.target = .static callee → callee < s.program.functions.length

/-- The facts of the function say that it calls one with the key. -/
def State.Stores (s : State) (id : FuncId) (key : String) : Prop :=
  ∃ facts, s.program.facts[id]? = some facts ∧ s.program.CallsKey facts key

theorem Closed.enter (h : Closed b p s) (hid : id < b.functions.length) (f : Function) :
    Over b (s.enter id f) :=
  h.stands (show (frameOf id f).facts.sites = [] from rfl) hid

section Closing

variable {effects : Effect → Prop} (h : Closed b p s) (hid : id < b.functions.length)
  (hsteps : Steps (s.enter id f) t) (hleads : Leads b (s.enter id f) t effects)

include hsteps

theorem getElem?_facts_close {i : FuncId} (hi : i ≠ id) :
    t.close.program.facts[i]? = t.program.facts[i]? := by
  have hframe : t.frame.id = id := hsteps.frame_id
  refine List.getElem?_set_ne ?_
  rw [hframe]
  exact hi.symm

include hid

theorem has_wrap_close (key target : String) :
    t.close.Has b (.wrap key target) ↔ t.Has b (.wrap key target) := by
  refine exists_congr fun i => exists_congr fun g => exists_congr fun facts =>
    and_congr_right fun hi => ?_
  rw [getElem?_facts_close hsteps (Nat.ne_of_gt (Nat.lt_of_lt_of_le hid hi))]
  exact Iff.rfl

include h

/-- Other functions keep their facts. -/
theorem Closed.getElem?_facts {i : FuncId} (hi : i < b.functions.length) (hne : i ≠ id) :
    t.close.program.facts[i]? = s.program.facts[i]? := by
  have hover := h.enter hid f
  have hlt : i < s.program.facts.length := by
    rw [hover.length]
    exact hover.lt hi
  exact (getElem?_facts_close hsteps hne).trans (getElem?_eq_of_extends hsteps.facts_grow hlt)

include hleads

omit h in
theorem stores_close_self (key : String) : t.close.Stores id key ↔ t.Has b (.call key) := by
  have hframe : t.frame.id = id := hsteps.frame_id
  have hlt : id < t.program.facts.length := by
    rw [hleads.stands.length]
    exact hleads.stands.lt hid
  have hfacts : t.close.program.facts[id]? = some t.frame.facts := by
    show (t.program.facts.set t.frame.id t.frame.facts)[id]? = _
    rw [hframe, List.getElem?_set_self hlt]
  refine ⟨?_, fun hcalls => ⟨_, hfacts, hcalls⟩⟩
  rintro ⟨facts, hsome, hcalls⟩
  obtain rfl := Option.some.inj (hfacts.symm.trans hsome)
  exact hcalls

theorem Closed.stores_close {i : FuncId} (hi : i < b.functions.length) (hne : i ≠ id)
    (key : String) : t.close.Stores i key ↔ s.Stores i key := by
  unfold State.Stores
  rw [h.getElem?_facts hid hsteps hi hne]
  refine exists_congr fun facts => and_congr_right fun hfacts => ?_
  exact callsKey_iff hleads.functions (h.targets hi hfacts)

/-- When a body has been read, the state is as it was between bodies before. -/
theorem Closed.close : Closed b p t.close where
  functions := h.functions.trans hleads.functions
  stands {frame} hsites hcurrent := by
    have hover := hleads.stands
    refine ⟨hover.functions, hover.packages, hover.decls, hover.nodup, ?_,
      fun {i} {g} hi hg => ?_, ?_, hcurrent⟩
    · exact (List.length_set ..).trans hover.length
    · obtain ⟨facts, hfacts, hrequested⟩ := hover.requested hi hg
      refine ⟨facts, ?_, hrequested⟩
      exact (getElem?_facts_close hsteps (Nat.ne_of_gt (Nat.lt_of_lt_of_le hid hi))).trans hfacts
    · intro site hsite
      rw [show frame.facts.sites = [] from hsites] at hsite
      cases hsite
  scopes := (List.length_set ..).trans (hsteps.preserves Step.scopes_length h.scopes)
  targets {i} {facts} hi hfacts site hsite callee hcallee := by
    by_cases hne : i = id
    · have hframe : t.frame.id = id := hsteps.frame_id
      have hlt : id < t.program.facts.length := by
        rw [hleads.stands.length]
        exact hleads.stands.lt hid
      have hown : (t.program.facts.set t.frame.id t.frame.facts)[i]? = some facts := hfacts
      rw [hne, hframe, List.getElem?_set_self hlt] at hown
      obtain rfl := Option.some.inj hown
      exact hleads.stands.targets site hsite callee hcallee
    · rw [h.getElem?_facts hid hsteps hi hne] at hfacts
      exact Nat.lt_of_lt_of_le (h.targets hi hfacts site hsite callee hcallee)
        hleads.functions.length_le

end Closing

/-! ## Two runs -/

/-- The states are the same between bodies as far as other bodies and the calls by name can tell. -/
structure InStep (b p p' : Program) (s s' : State) : Prop where
  left : Closed b p s
  right : Closed b p' s'
  globals : s.program.globals.get? = s'.program.globals.get?
  scopes : ∀ id : FuncId, s.scopes[id]?.getD {} = s'.scopes[id]?.getD {}
  calls : ∀ id < b.functions.length, ∀ key, s.Stores id key ↔ s'.Stores id key
  wraps : ∀ key target, s.Has b (.wrap key target) ↔ s'.Has b (.wrap key target)

theorem Versions.face_eq (hv : Versions b p p') (hf : p.functions[id]? = some f)
    (hf' : p'.functions[id]? = some f') : f.face = f'.face := by
  have hfaces : p.functions.map Function.face = p'.functions.map Function.face :=
    congrArg Program.functions (hv.left.trans hv.right.symm)
  have hface := congrArg (fun fs => fs[id]?) hfaces
  simp only [List.getElem?_map, hf, hf', Option.map_some] at hface
  exact Option.some.inj hface

theorem Versions.length_eq (hv : Versions b p p') : p.functions.length = b.functions.length := by
  rw [← hv.left, Program.faces, List.length_map]

theorem Versions.symm_length_eq (hv : Versions b p p') :
    p'.functions.length = b.functions.length := by
  rw [← hv.right, Program.faces, List.length_map]

/-- The scopes are those that were there, but for the one of the body that has been read. -/
theorem getD_scopes_close (hlt : t.frame.id < t.scopes.length) (i : FuncId) :
    t.close.scopes[i]?.getD {} = if i = t.frame.id then t.frame.scope
      else t.scopes[i]?.getD {} := by
  show (t.scopes.set t.frame.id t.frame.scope)[i]?.getD {} = _
  split
  case isTrue heq => rw [heq, List.getElem?_set_self hlt, Option.getD_some]
  case isFalse hne => rw [List.getElem?_set_ne (Ne.symm hne)]

theorem Closed.getElem?_functions (h : Closed b p s) (hf : p.functions[id]? = some f) :
    s.program.functions[id]? = some f :=
  getElem?_of_extends h.functions hf

/-- Where a body begins, no call has been recorded. -/
theorem not_has_call_enter (key : String) : ¬ (s.enter id f).Has b (.call key) := by
  rintro ⟨site, hsite, _⟩
  cases hsite

/-- Two runs that have read a body to the same effect are in step again. -/
theorem InStep.close (h : InStep b p p' s s') (hid : id < b.functions.length)
    {effects : Effect → Prop} (hsteps : Steps (s.enter id f) t)
    (hsteps' : Steps (s'.enter id f') t') (hleads : Leads b (s.enter id f) t effects)
    (hleads' : Leads b (s'.enter id f') t' effects) (hview : t.view = t'.view) :
    InStep b p p' t.close t'.close where
  left := h.left.close hid hsteps hleads
  right := h.right.close hid hsteps' hleads'
  globals := congrArg View.globals hview
  scopes i := by
    have hlt : ∀ {p : Program} {s t : State} {f : Function}, Closed b p s → Steps (s.enter id f) t →
        Leads b (s.enter id f) t effects → t.frame.id < t.scopes.length := by
      intro p s t f hs hsteps hleads
      rw [hsteps.preserves Step.scopes_length hs.scopes, show t.frame.id = id from hsteps.frame_id]
      exact hleads.stands.lt hid
    have hscopes : t.scopes[i]?.getD {} = t'.scopes[i]?.getD {} :=
      congrFun (congrArg View.scopes hview) i
    rw [getD_scopes_close (hlt h.left hsteps hleads),
      getD_scopes_close (hlt h.right hsteps' hleads'), hscopes,
      show t.frame.id = t'.frame.id from congrArg View.id hview,
      show t.frame.scope = t'.frame.scope from congrArg View.scope hview]
  calls i hi key := by
    by_cases hne : i = id
    · rw [hne, stores_close_self hid hsteps hleads,
        stores_close_self hid hsteps' hleads', hleads.gains, hleads'.gains,
        iff_false_intro (not_has_call_enter key), iff_false_intro (not_has_call_enter key)]
    · rw [h.left.stores_close hid hsteps hleads hi hne,
        h.right.stores_close hid hsteps' hleads' hi hne]
      exact h.calls i hi key
  wraps key target := by
    rw [has_wrap_close hid hsteps, has_wrap_close hid hsteps', hleads.gains, hleads'.gains]
    exact or_congr_left (h.wraps key target)

/-- Reading the bodies with one number keeps two runs in step. -/
theorem InStep.readFunction (h : InStep b p p' s s') (hv : Versions b p p') (hb : Ground b)
    (hid : id < b.functions.length) : InStep b p p' (readFunction s id) (readFunction s' id) := by
  obtain ⟨f, hf⟩ : ∃ f, p.functions[id]? = some f :=
    ⟨_, List.getElem?_eq_getElem (hv.length_eq ▸ hid)⟩
  obtain ⟨f', hf'⟩ : ∃ f', p'.functions[id]? = some f' :=
    ⟨_, List.getElem?_eq_getElem (hv.symm_length_eq ▸ hid)⟩
  have hg := h.left.getElem?_functions hf
  have hg' := h.right.getElem?_functions hf'
  have hbodies := hv.bodies hf hf'
  cases hbody : f.body with
  | none =>
    rw [hbody] at hbodies
    cases hbody' : f'.body with
    | none =>
      rw [readFunction_of_no_body (by rw [hg]; exact hbody),
        readFunction_of_no_body (by rw [hg']; exact hbody')]
      exact h
    | some body' =>
      rw [hbody'] at hbodies
      cases hbodies
  | some body =>
    rw [hbody] at hbodies
    cases hbody' : f'.body with
    | none =>
      rw [hbody'] at hbodies
      cases hbodies
    | some body' =>
      have hface := hv.face_eq hf hf'
      have halike : Alike b {} (s.enter id f) (s'.enter id f') :=
        .of_view (h.left.enter hid f) (h.right.enter hid f') (view_enter hface h.globals h.scopes)
      obtain ⟨effects, hleads, hleads', hview, _⟩ :=
        hv.follow_readBody hb hf hf' hface hbody hbody' halike
      rw [readFunction_of_body hg hbody, readFunction_of_body hg' hbody']
      exact h.close hid (acts_readBody f body).1 (acts_readBody f' body').1 hleads hleads' hview

theorem Versions.readingOrder_eq (hv : Versions b p p') : readingOrder p = readingOrder p' := by
  have hsame : ∀ p : Program, readingOrder p.faces = readingOrder p := by
    intro p
    unfold readingOrder Program.faces
    simp only [List.length_map, List.getElem?_map]
    congr 1 <;>
    · refine List.filter_congr fun id _ => ?_
      cases p.functions[id]? <;> rfl
  rw [← hsame, ← hsame p', hv.left, hv.right]

theorem closed_start (hfaces : p.faces = b) (hb : Ground b) : Closed b p (.start p) where
  functions := List.prefix_rfl
  stands {frame} hsites hid := by
    have hfunctions : p.functions.map Function.face = b.functions :=
      congrArg Program.functions hfaces
    have hpackages : p.faces.packages = b.packages := congrArg Program.packages hfaces
    have hdecls : p.faces.decls = b.decls := congrArg Program.decls hfaces
    refine ⟨hfunctions ▸ List.prefix_rfl, hpackages, hdecls, ?_,
      List.length_replicate .., ?_, ?_, hid⟩
    · have hnodup := hb.nodup
      rwa [← hfunctions, List.map_map] at hnodup
    · intro i f hi hf
      have hlt := (List.getElem?_eq_some_iff.mp hf).1
      rw [← hfunctions, List.length_map] at hi
      exact absurd hlt (Nat.not_lt.mpr hi)
    · intro site hsite
      rw [show frame.facts.sites = [] from hsites] at hsite
      cases hsite
  scopes := List.length_replicate ..
  targets {i} {facts} _ hfacts site hsite := by
    rw [List.eq_of_mem_replicate (List.mem_of_getElem? hfacts)] at hsite
    cases hsite

theorem Versions.inStep_start (hv : Versions b p p') (hb : Ground b) :
    InStep b p p' (.start p) (.start p') where
  left := closed_start hv.left hb
  right := closed_start hv.right hb
  globals := by
    have hglobals : p.faces.globals = p'.faces.globals :=
      congrArg Program.globals (hv.left.trans hv.right.symm)
    exact congrArg Table.get? hglobals
  scopes id := by
    show (List.replicate p.functions.length ({} : Scope))[id]?.getD {} =
      (List.replicate p'.functions.length ({} : Scope))[id]?.getD {}
    rw [hv.length_eq, hv.symm_length_eq]
  calls id _ key := by
    have hnone : ∀ p : Program, ¬ (State.start p).Stores id key := by
      rintro p ⟨facts, hfacts, site, hsite, _⟩
      rw [List.eq_of_mem_replicate (List.mem_of_getElem? hfacts)] at hsite
      cases hsite
    exact iff_of_false (hnone p) (hnone p')
  wraps key target := by
    have hnone : ∀ p : Program, ¬ (State.start p).Has b (.wrap key target) := by
      rintro p ⟨id, f, facts, _, _, _, hfacts, site, hsite, _⟩
      rw [List.eq_of_mem_replicate (List.mem_of_getElem? hfacts)] at hsite
      cases hsite
    exact iff_of_false (hnone p) (hnone p')

/-- Two versions of a program are in step when all bodies have been read. -/
theorem Versions.inStep_foldl (hv : Versions b p p') (hb : Ground b) {ids : List FuncId}
    (hids : ∀ id ∈ ids, id < b.functions.length) :
    InStep b p p' (ids.foldl readFunction (.start p)) (ids.foldl readFunction (.start p')) := by
  have hsteps : ∀ {s s' : State}, InStep b p p' s s' →
      InStep b p p' (ids.foldl readFunction s) (ids.foldl readFunction s') := by
    induction ids with
    | nil => exact fun h => h
    | cons id rest ih =>
      obtain ⟨hid, hrest⟩ := List.forall_mem_cons.mp hids
      exact fun h => ih hrest (h.readFunction hv hb hid)
  exact hsteps (hv.inStep_start hb)

/-! ## Calls by name -/

theorem mem_staticCalls_iff_stores {caller callee : String} :
    (caller, callee) ∈ s.program.staticCalls ↔ ∃ id f, s.program.functions[id]? = some f ∧
      f.key = caller ∧ s.Stores id callee := by
  have hsite : ∀ {site : CallSite} {id : FuncId},
      id ∈ Program.namedTargets site ↔ site.target = .static id := by
    intro site id
    unfold Program.namedTargets
    cases site.target <;> simp [eq_comm]
  rw [Program.mem_staticCalls]
  refine ⟨?_, ?_⟩
  · rintro ⟨edge, hedge, f, g, hf, hg, hcaller, hcallee⟩
    rw [Program.staticGraph, Program.graphBy_edges, Program.mem_edgesBy] at hedge
    obtain ⟨site, hin, htarget, _⟩ := hedge
    cases hfacts : s.program.facts[edge.caller]? with
    | none =>
      rw [Program.factsOf, hfacts] at hin
      cases hin
    | some facts =>
      rw [Program.factsOf, hfacts] at hin
      exact ⟨edge.caller, f, hf, hcaller, facts, hfacts, site, hin, edge.callee, g,
        hsite.mp htarget, hg, hcallee⟩
  · rintro ⟨id, f, hf, hcaller, facts, hfacts, site, hin, target, g, htarget, hg, hcallee⟩
    refine ⟨⟨id, target, site.line⟩, ?_, f, g, hf, hg, hcaller, hcallee⟩
    rw [Program.staticGraph, Program.graphBy_edges, Program.mem_edgesBy]
    refine ⟨site, ?_, hsite.mpr htarget, rfl⟩
    rw [Program.factsOf, hfacts]
    exact hin

/-- The calls between functions: those of the program's own functions, and those of the
requested ones. -/
theorem Closed.mem_staticCalls (h : Closed b p s) {caller callee : String} :
    (caller, callee) ∈ s.program.staticCalls ↔
      (∃ id < b.functions.length, ∃ f, b.functions[id]? = some f ∧ f.key = caller ∧
        s.Stores id callee) ∨ s.Has b (.wrap caller callee) := by
  have hface : ∀ {id : FuncId}, id < b.functions.length →
      (s.program.functions[id]?).map Function.face = b.functions[id]? := fun hid =>
    (h.enter hid default).function hid
  rw [mem_staticCalls_iff_stores]
  refine ⟨?_, ?_⟩
  · rintro ⟨id, f, hf, hcaller, hstores⟩
    rcases Nat.lt_or_ge id b.functions.length with hid | hid
    · refine Or.inl ⟨id, hid, f.face, ?_, hcaller, hstores⟩
      rw [← hface hid, hf, Option.map_some]
    · obtain ⟨facts, hfacts, hcalls⟩ := hstores
      exact Or.inr ⟨id, f, facts, hid, hf, hcaller, hfacts, hcalls⟩
  · rintro (⟨id, hid, g, hg, hcaller, hstores⟩ | ⟨id, f, facts, _, hf, hcaller, hfacts, hcalls⟩)
    · obtain ⟨f, hf, rfl⟩ := Option.map_eq_some_iff.mp ((hface hid).trans hg)
      exact ⟨id, f, hf, hcaller, hstores⟩
    · exact ⟨id, f, hf, hcaller, facts, hfacts, hcalls⟩

/-- **Main statement**: two versions of a program have the same calls by name. -/
theorem Versions.mem_staticCalls (hv : Versions b p p') (hb : Ground b) (caller callee : String) :
    (caller, callee) ∈ (run p).1.staticCalls ↔ (caller, callee) ∈ (run p').1.staticCalls := by
  have hids : ∀ id ∈ readingOrder p, id < b.functions.length := by
    intro id hid
    rw [← hv.length_eq]
    exact List.mem_range.mp ((readingOrder_perm p).mem_iff.mp hid)
  have hend : InStep b p p' ((readingOrder p).foldl readFunction (.start p))
      ((readingOrder p').foldl readFunction (.start p')) := by
    rw [← hv.readingOrder_eq]
    exact hv.inStep_foldl hb hids
  refine hend.left.mem_staticCalls.trans
    (Iff.trans (or_congr ?_ (hend.wraps _ _)) hend.right.mem_staticCalls.symm)
  refine exists_congr fun id => and_congr_right fun hid => exists_congr fun f => ?_
  rw [hend.calls id hid]

end Resolve

end CallAtlas
