import CallAtlas.Proofs.Resolve.Parts
import CallAtlas.Proofs.Resolve.Steps
import CallAtlas.Proofs.WellFormed
import CallAtlas.Resolve.Body

/-!
# Reading takes steps

Every part of the reader satisfies `Reads`: it takes the steps of `Step` and nothing else, and the
origins in its answer are covered by what has been recorded when it ends. The proofs follow the
definitions; the functions on expressions are proved together, with what a call calls
(`readCallee`), and so are those on statements.

An answer that was found earlier stays covered while more is read (`Steps.coversValue`), which is
what an argument list needs: the call is recorded behind its last argument.
-/

set_option autoImplicit false

namespace CallAtlas.Resolve

open Outline (Expr Elem Stmt Clause)

variable {s t : State}

/-! ## Answers that are covered -/

theorem Steps.coversValue {value : Value} (h : Steps s t) (hs : s.CoversValue value) :
    t.CoversValue value :=
  ⟨h.covers hs.origin, fun r hr => h.covers (hs.results r hr)⟩

theorem coversValue_of_origin {ty : Ty} {origin : Origin} (h : s.Covers origin) :
    s.CoversValue { ty, origin } :=
  ⟨h, by simp⟩

theorem coversValue_empty (s : State) {ty : Ty} : s.CoversValue { ty } :=
  coversValue_of_origin (covers_empty s)

theorem coversValue_slot {slot : Slot} (h : s.Holds slot) {ty : Ty} :
    s.CoversValue { ty, origin := .slot slot } :=
  coversValue_of_origin (covers_slot h)

theorem coversValue_unseen (s : State) {ty : Ty} : s.CoversValue { ty, origin := .unseen } :=
  coversValue_of_origin (covers_unseen s)

/-- The origins in what a call calls are covered, the functions in it exist, and an interface asks
for the method that is called on it. -/
def State.CoversCallee (s : State) : Callee → Prop
  | .method id recv => s.Names id ∧ s.Covers recv
  | .invoke iface method recv => method ∈ s.program.decls.interfaceMethods iface ∧ s.Covers recv
  | .dynamic callee _ => s.Covers callee
  | .function id _ => s.Names id
  | .unresolved => True

theorem Steps.coversCallee {callee : Callee} (h : Steps s t) (hs : s.CoversCallee callee) :
    t.CoversCallee callee := by
  cases callee with
  | method id recv => exact ⟨h.names hs.1, h.covers hs.2⟩
  | invoke iface method recv => exact ⟨h.decls_eq ▸ hs.1, h.covers hs.2⟩
  | dynamic callee results => exact h.covers hs
  | function id typeArgs => exact h.names hs
  | unresolved => trivial

theorem coversValue_siteResults {id : FuncId} {site : Nat} (hid : id = s.frame.id)
    (hsite : site < s.frame.facts.sites.length) (types : List Ty) :
    s.CoversValue (siteResults id site types) := by
  have hresults : ∀ r ∈ (siteResults id site types).results, s.Covers r.2 := by
    intro r hr
    obtain ⟨⟨ty, i⟩, _, rfl⟩ := List.mem_map.mp hr
    exact covers_slot ⟨hid, hsite⟩
  refine ⟨?_, hresults⟩
  cases types with
  | nil => exact covers_empty s
  | cons ty rest => exact covers_slot ⟨hid, hsite⟩

theorem coversValue_signedValue (op : Source.UnaryOp) {value : Value} (h : s.CoversValue value) :
    s.CoversValue (signedValue op value) := by
  unfold signedValue
  split
  · exact coversValue_of_origin h.origin
  · split
    · exact coversValue_of_origin h.origin
    · exact coversValue_of_origin h.origin
  · exact coversValue_unseen s
  · exact coversValue_empty s

theorem coversValue_builtinValue (u : State) (name : String) (args : List Expr)
    {values : List Value} (h : ∀ v ∈ values, s.CoversValue v) :
    s.CoversValue (builtinValue u name args values) := by
  unfold builtinValue
  split
  · cases values with
    | nil => exact coversValue_empty s
    | cons v rest => exact h v List.mem_cons_self
  · split
    · exact coversValue_empty s
    · split
      · exact coversValue_empty s
      · split
        · exact coversValue_unseen s
        · exact coversValue_empty s

theorem coversCallee_dynamicCallee (u : Universe) {value : Value} (h : s.Covers value.origin) :
    s.CoversCallee (dynamicCallee u value) := by
  have hcallee : ∀ callable : Bool, s.CoversCallee
      (if callable then .dynamic value.origin (resultCount value.ty) else .unresolved) := by
    intro callable
    cases callable with
    | true => exact h
    | false => trivial
  exact hcallee _

theorem covers_allocatedOrigin {found : Option TypeId}
    (h : ∀ id ∈ found, id ∈ s.frame.facts.allocations) : s.Covers (allocatedOrigin found) := by
  cases found with
  | none => exact covers_empty s
  | some id =>
    refine covers_atoms rfl fun a ha => ?_
    rw [List.mem_singleton.mp ha]
    exact h id rfl

theorem hasMethod_of_member {ty : Ty} {name : String} {id : FuncId}
    (h : s.program.decls.member ty name = some (.method id)) : s.program.decls.HasMethod id := by
  obtain ⟨owner, _, hmember⟩ := Option.bind_eq_some_iff.mp h
  exact Universe.exists_method_of_memberFrom hmember

theorem hasMethod_of_methodOfType? {ty : Ty} {name : String} {id : FuncId}
    (h : methodOfType? s ty name = some id) : s.program.decls.HasMethod id := by
  obtain ⟨owner, _, hmethod⟩ := Option.bind_eq_some_iff.mp h
  exact Universe.exists_method_of_methodOf hmethod

theorem mem_packages {path : String} {q : Package} (h : s.program.package? path = some q) :
    q ∈ s.program.packages := List.mem_reverse.mp (List.mem_of_find?_eq_some h)

theorem names_of_funcs {path name : String} {q : Package} {id : FuncId}
    (hq : s.program.package? path = some q) (h : q.funcs.get? name = some id) : s.Names id :=
  Or.inr (.packageFunc (mem_packages hq) (List.mem_map_of_mem (Table.mem_entries_of_get? h)))

theorem names_of_packageFunc? {pkg name : String} {id : FuncId}
    (h : s.program.packageFunc? pkg name = some id) : s.Names id := by
  obtain ⟨q, hq, hid⟩ := Option.bind_eq_some_iff.mp h
  exact names_of_funcs hq hid

theorem names_of_ownFunc? {name : String} {id : FuncId} (h : s.ownFunc? name = some id) :
    s.Names id :=
  names_of_packageFunc? h

theorem names_of_closure? {index : Nat} {id : FuncId} (h : s.closure? index = some id) :
    s.Names id := by
  obtain ⟨f, hf, hid⟩ := Option.bind_eq_some_iff.mp h
  exact Or.inr (.literal (List.mem_of_getElem? hf) (List.mem_of_getElem? hid))

/-- Type arguments are given to a generic function. -/
theorem isGeneric_of_genericBase? {base : Expr} {id : FuncId} (h : genericBase? s base = some id) :
    ∃ f, s.program.functions[id]? = some f ∧ f.isGeneric = true := by
  -- whatever the base is, the function that is found is looked up
  have hfound : ∀ found : FuncId, ((s.program.functions[found]?).bind fun f =>
      if f.isGeneric then some found else none) = some id →
        ∃ f, s.program.functions[id]? = some f ∧ f.isGeneric = true := by
    intro found hbind
    obtain ⟨f, hf, hgeneric⟩ := Option.bind_eq_some_iff.mp hbind
    split at hgeneric
    · obtain rfl : found = id := Option.some.inj hgeneric
      exact ⟨f, hf, ‹_›⟩
    · cases hgeneric
  unfold genericBase? at h
  dsimp only at h
  split at h
  · split at h
    · cases h
    · obtain ⟨found, _, h⟩ := Option.bind_eq_some_iff.mp h
      exact hfound found h
  · obtain ⟨path, _, h⟩ := Option.bind_eq_some_iff.mp h
    obtain ⟨found, _, h⟩ := Option.bind_eq_some_iff.mp h
    exact hfound found h
  · cases h

theorem names_of_genericBase? {base : Expr} {id : FuncId} (h : genericBase? s base = some id) :
    s.Names id := by
  obtain ⟨f, hf, _⟩ := isGeneric_of_genericBase? h
  exact Or.inl (List.getElem?_eq_some_iff.mp hf).1

/-! ## Names -/

theorem reads_readIdent (name : String) : Reads s (readIdent name) State.CoversValue := by
  refine .get ?_
  split
  · rename_i owner ty hvar
    exact .pure (coversValue_slot (holds_localVar (declares_of_localVar? hvar)))
  · split
    · exact .pure (coversValue_empty s)
    · split
      · rename_i hfunc
        exact reads_funcValue (names_of_ownFunc? hfunc)
      · split
        · split
          · exact .pure (coversValue_empty s)
          · exact .pure (coversValue_slot (holds_global s _ _))
        · split
          · exact (acts_report _).bind fun t _ _ => .pure (coversValue_unseen t)
          · exact .pure (coversValue_unseen s)

theorem reads_readQualified (qualifier path name : String) :
    Reads s (readQualified qualifier path name) State.CoversValue := by
  refine .get ?_
  split
  · exact .pure (coversValue_unseen s)
  · rename_i hpackage
    split
    · rename_i hfunc
      exact reads_funcValue (names_of_funcs hpackage hfunc)
    · split
      · split
        · exact .pure (coversValue_empty s)
        · exact .pure (coversValue_slot (holds_global s _ _))
      · exact (acts_report _).bind fun t _ _ => .pure (coversValue_unseen t)

theorem reads_readMethodOfType (ty : Ty) (name : String) :
    Reads s (readMethodOfType ty name) State.CoversValue := by
  refine .get ?_
  split
  · rename_i hmethod
    exact (reads_thunk (hasMethod_of_methodOfType? hmethod)).bind fun t id _ hid =>
      reads_funcValue hid
  · exact .pure (coversValue_unseen s)

theorem reads_readMember (operand : Expr) (value : Value) (name : String) :
    Reads s (readMember operand value name) State.CoversValue := by
  refine .get ?_
  split
  · rename_i hfield
    exact .pure (coversValue_slot (holds_field (Universe.lt_of_member hfield rfl)))
  · rename_i hmethod
    exact (reads_boundMethod (hasMethod_of_member hmethod)).bind fun t id _ hid =>
      reads_funcValue hid
  · exact .pure (coversValue_unseen s)
  · exact (acts_checkMember _ _ _).bind fun t _ _ => .pure (coversValue_unseen t)

theorem acts_flowIntoField (ty : Ty) (owner : Option TypeId) (i : Nat) (key : Option String)
    {value : Value} (h : s.CoversValue value) : Acts s (flowIntoField ty owner i key value) := by
  refine .get ?_
  dsimp only
  split
  · exact .pure trivial
  · split
    · exact .pure trivial
    · split
      · rename_i hfield
        exact acts_addFlow h.origin (holds_field (Universe.lt_of_member hfield rfl))
      · exact .pure trivial

/-! ## What a call calls -/

theorem reads_qualifiedCallee (qualifier path name : String) :
    Reads s (qualifiedCallee qualifier path name) State.CoversCallee := by
  refine .get ?_
  split
  · exact (reads_external _ _).bind fun t id _ hid => .pure hid
  · rename_i hpackage
    split
    · rename_i hfunc
      exact .pure (names_of_funcs hpackage hfunc)
    · split
      · exact .pure (covers_slot (holds_global s _ _))
      · exact (acts_report _).bind fun t _ _ => .pure trivial

theorem reads_methodOfTypeCallee (ty : Ty) (name : String) :
    Reads s (methodOfTypeCallee ty name) State.CoversCallee := by
  refine .get ?_
  split
  · rename_i hmethod
    exact (reads_thunk (hasMethod_of_methodOfType? hmethod)).bind fun t id _ hid => .pure hid
  · exact .pure trivial

theorem reads_memberCallee (operand : Expr) {value : Value} (name : String)
    (h : s.CoversValue value) : Reads s (memberCallee operand value name) State.CoversCallee := by
  refine .get ?_
  split
  · rename_i hmethod
    exact .pure ⟨names_of_hasMethod (hasMethod_of_member hmethod), h.origin⟩
  · rename_i hiface
    exact .pure ⟨Universe.mem_interfaceMethods_of_member hiface, h.origin⟩
  · rename_i hfield
    exact .pure (covers_slot (holds_field (Universe.lt_of_member hfield rfl)))
  · exact (acts_checkMember _ _ _).bind fun t _ _ => .pure trivial

/-- The call is recorded when its callee and its arguments have been read, so all that the site
mentions is covered. -/
theorem reads_finishCall {callee : Callee} (typeArgs : List Ty) {args : List Value}
    (hcallee : s.CoversCallee callee) (hargs : ∀ v ∈ args, s.CoversValue v) :
    Reads s (finishCall callee typeArgs args) State.CoversValue := by
  -- making an instance comes before the call is recorded: the arguments must still be covered
  have horigins : ∀ {t : State}, Steps s t → ∀ origin ∈ args.map Value.origin, t.Covers origin := by
    intro t hsteps origin horigin
    obtain ⟨v, hv, rfl⟩ := List.mem_map.mp horigin
    exact hsteps.covers (hargs v hv).origin
  -- the results of the call are those of the site that has just been recorded
  have hresults : ∀ {t u : State} {site : Nat}, Steps s t →
      u.frame.id = t.frame.id ∧ site < u.frame.facts.sites.length → ∀ types : List Ty,
        u.CoversValue (siteResults s.frame.id site types) := by
    intro t u site hsteps hsite types
    exact coversValue_siteResults (hsteps.frame_id.symm.trans hsite.1.symm) hsite.2 types
  refine .get ?_
  dsimp only
  cases callee with
  | unresolved => exact .pure (coversValue_unseen s)
  | function id ownTypeArgs =>
    refine (reads_instantiate hcallee _ _).bind fun t target hsteps htarget => ?_
    refine (reads_addSite (calls_static htarget) (by simp) (by simp) (horigins hsteps)).bind
      fun u site _ hsite => ?_
    split
    · exact .pure (coversValue_unseen u)
    · exact .pure (hresults hsteps hsite _)
  | method id recv =>
    obtain ⟨hid, hrecv⟩ := hcallee
    have hrecord : ∀ {target : FuncId} {t : State}, Steps s t → t.Names target →
        Reads t (addSite (.static target) (some recv) (args.map Value.origin)) fun u site =>
          u.frame.id = t.frame.id ∧ site < u.frame.facts.sites.length := by
      intro target t hsteps htarget
      refine reads_addSite (calls_static htarget) (by simp) ?_ (horigins hsteps)
      rintro origin ⟨⟩
      exact hsteps.covers hrecv
    dsimp only
    split
    · exact (hrecord .refl hid).bind fun u site _ hsite => .pure (hresults .refl hsite _)
    · exact (reads_instantiate hid _ _).bind fun t target hsteps htarget =>
        (hrecord hsteps htarget).bind fun u site _ hsite => .pure (hresults hsteps hsite _)
  | invoke iface method recv =>
    obtain ⟨hiface, hrecv⟩ := hcallee
    refine (reads_addSite (calls_invoke hiface) (by simp) ?_ (horigins .refl)).bind
      fun u site _ hsite =>
      .pure (hresults .refl hsite _)
    rintro origin ⟨⟩
    exact hrecv
  | dynamic origin results =>
    refine (reads_addSite (calls_dynamic s origin) ?_ (by simp) (horigins .refl)).bind
      fun u site _ hsite =>
      .pure (hresults .refl hsite _)
    rintro callee ⟨⟩
    exact hcallee

/-! ## Expressions -/

mutual

theorem reads_readExpr (e : Expr) (s : State) : Reads s (readExpr e) State.CoversValue := by
  cases e with
  | ident name => exact reads_readIdent name
  | selector operand name =>
    rw [readExpr]
    refine .get ?_
    cases s.qualifier? operand with
    | some found => exact reads_readQualified _ _ _
    | none =>
      cases s.typeOperand? operand with
      | some ty => exact reads_readMethodOfType _ _
      | none => exact (reads_readExpr operand s).bind fun t value _ _ => reads_readMember _ _ _
  | call func args typeArgs line =>
    rw [readExpr_call]
    refine (acts_setLine line).bind fun s _ _ => ?_
    refine .get ?_
    cases s.typeOperand? func with
    | some ty =>
      refine (reads_readExprs args s).bind fun t values _ hvalues =>
        .pure (coversValue_of_origin ?_)
      cases hlast : values.getLast? with
      | none => exact covers_empty t
      | some value => exact (hvalues value (List.mem_of_getLast? hlast)).origin
    | none =>
      cases isBuiltinCall s func with
      | some name =>
        exact (reads_readExprs args s).bind fun t values _ hvalues =>
          .get (.pure (coversValue_builtinValue t _ _ hvalues))
      | none =>
        refine (reads_readCallee func s (reads_readExpr func s)).bind fun t callee _ hcallee => ?_
        refine (reads_readExprs args t).bind fun u values hsteps hvalues => ?_
        refine (acts_setLine line).bind fun v _ hline => ?_
        exact reads_finishCall typeArgs (hline.coversCallee (hsteps.coversCallee hcallee))
          fun value hvalue => hline.coversValue (hvalues value hvalue)
  | composite ty pointer elems =>
    unfold readExpr
    refine (acts_checkType ty).bind fun t _ _ => ?_
    refine (reads_allocate ty).bind fun u id _ hid => ?_
    refine (acts_readElems ty id 0 elems u).bind fun v _ hsteps => ?_
    exact .pure (coversValue_of_origin (hsteps.covers (covers_allocatedOrigin hid)))
  | new ty =>
    unfold readExpr
    refine (acts_checkType ty).bind fun t _ _ => ?_
    exact (reads_allocate ty).bind fun u id _ hid =>
      .pure (coversValue_of_origin (covers_allocatedOrigin hid))
  | funcLit index =>
    unfold readExpr
    refine .get ?_
    split
    · rename_i hliteral
      exact reads_funcValue (names_of_closure? hliteral)
    · exact .pure (coversValue_unseen s)
  | assert operand ty =>
    unfold readExpr
    refine (acts_checkType ty).bind fun t _ _ => ?_
    exact (reads_readExpr operand t).bind fun u value _ h => .pure (coversValue_of_origin h.origin)
  | convert ty operand =>
    unfold readExpr
    refine (acts_checkType ty).bind fun t _ _ => ?_
    exact (reads_readExpr operand t).bind fun u value _ h => .pure (coversValue_of_origin h.origin)
  | index base index asType =>
    unfold readExpr
    refine (reads_readExpr base s).bind fun t value _ _ => ?_
    exact (reads_readExpr index t).bind fun u _ _ _ =>
      .pure (coversValue_unseen u)
  | unary op operand =>
    unfold readExpr
    exact (reads_readExpr operand s).bind fun t value _ h => .pure (coversValue_signedValue op h)
  | lit ty =>
    unfold readExpr
    exact .pure (coversValue_empty s)
  | type ty =>
    unfold readExpr
    exact (acts_checkType ty).bind fun t _ _ => .pure (coversValue_empty t)
  | other items =>
    unfold readExpr
    exact (reads_readExprs items s).bind fun t _ _ _ =>
      .pure (coversValue_empty t)

/-- What is called is covered. An expression with no rule of its own as a callee is read as a value,
which is why reading it is taken for granted here. -/
theorem reads_readCallee (func : Expr) (s : State)
    (hfunc : Reads s (readExpr func) State.CoversValue) :
    Reads s (readCallee s func) State.CoversCallee := by
  cases func with
  | ident name =>
    rw [readCallee, readCalleeOr]
    split
    · rename_i hown
      split at hown
      · cases hown
      · exact .pure (names_of_ownFunc? hown)
    · exact (reads_readIdent name).bind fun t value _ hvalue =>
        .pure (coversCallee_dynamicCallee _ hvalue.origin)
  | selector operand name =>
    rw [readCallee, readCalleeOr]
    cases s.qualifier? operand with
    | some found => exact reads_qualifiedCallee _ _ _
    | none =>
      cases s.typeOperand? operand with
      | some ty => exact reads_methodOfTypeCallee _ _
      | none =>
        exact (reads_readExpr operand s).bind fun t value _ hvalue =>
          reads_memberCallee operand name hvalue
  | funcLit index =>
    rw [readCallee, readCalleeOr]
    split
    · rename_i hliteral
      exact .pure (names_of_closure? hliteral)
    · exact .pure trivial
  | index base index asType =>
    rw [readCallee, readCalleeOr]
    split
    · rename_i hgeneric
      exact .pure (names_of_genericBase? hgeneric)
    · refine (reads_readExpr base s).bind fun t value _ _ => ?_
      exact (reads_readExpr index t).bind fun u _ _ _ =>
        .pure (coversCallee_dynamicCallee _ (covers_unseen u))
  | _ =>
    exact hfunc.bind fun t value _ hvalue => .pure (coversCallee_dynamicCallee _ hvalue.origin)

theorem reads_readExprs (es : List Expr) (s : State) :
    Reads s (readExprs es) fun t values => ∀ v ∈ values, t.CoversValue v := by
  cases es with
  | nil => exact .pure (by simp)
  | cons e rest =>
    refine (reads_readExpr e s).bind fun t value _ hvalue => ?_
    refine (reads_readExprs rest t).bind fun u values hsteps hvalues => .pure ?_
    intro v hv
    rcases List.mem_cons.mp hv with rfl | hv
    · exact hsteps.coversValue hvalue
    · exact hvalues v hv

theorem acts_readElems (ty : Ty) (owner : Option TypeId) (i : Nat) (elems : List Elem) (s : State) :
    Acts s (readElems ty owner i elems) := by
  cases elems with
  | nil => exact .pure trivial
  | cons elem rest =>
    obtain ⟨key, value⟩ := elem
    refine (reads_readExpr value s).bind fun t v _ hv => ?_
    exact (acts_flowIntoField ty owner i key hv).bind fun u _ _ =>
      acts_readElems ty owner (i + 1) rest u

end

/-! ## Statements -/

/-- A single value is spread over the places, or gives a flag as well. -/
theorem covers_spread {found : List Value} (h : ∀ v ∈ found, s.CoversValue v) (count : Nat) :
    ∀ r ∈ spread count found, s.Covers r.2 := by
  intro r hr
  unfold spread at hr
  split at hr
  · rename_i value
    have hvalue := h value List.mem_cons_self
    split at hr
    · split at hr
      · exact hvalue.results r hr
      · rcases List.mem_cons.mp hr with rfl | hflag
        · exact hvalue.origin
        · rw [List.mem_singleton.mp hflag]
          exact covers_empty s
    · rw [List.mem_singleton.mp hr]
      exact hvalue.origin
  · obtain ⟨value, hvalue, rfl⟩ := List.mem_map.mp hr
    exact (h value hvalue).origin

theorem reads_readValues (values : List Expr) (count : Nat) :
    Reads s (readValues values count) fun t found => ∀ r ∈ found, t.Covers r.2 := by
  refine (reads_readExprs values s).bind fun t found _ hfound => .pure fun r hr => ?_
  rcases List.mem_append.mp hr with hspread | hmissing
  · exact covers_spread hfound count r hspread
  · rw [List.eq_of_mem_replicate hmissing]
    exact covers_unseen t

theorem reads_fieldSlot (operand : Expr) (name : String) (value : Value) :
    Reads s (fieldSlot operand name value) fun t found => ∀ slot ∈ found, t.Holds slot := by
  refine .get ?_
  split
  · rename_i hfield
    refine .pure ?_
    rintro slot ⟨⟩
    exact Universe.lt_of_member hfield rfl
  · exact .pure (by simp)
  · exact (acts_checkMember _ _ _).bind fun _ _ _ => .pure (by simp)

/-- An assignment writes a slot that is there. -/
theorem reads_sink (target : Expr) :
    Reads s (sink target) fun t found => ∀ slot ∈ found, t.Holds slot := by
  refine .get ?_
  split
  · split
    · exact .pure (by simp)
    · split
      · rename_i hvar
        refine .pure ?_
        rintro slot ⟨⟩
        exact declares_of_localVar? hvar
      · refine .pure fun slot hslot => ?_
        split at hslot
        · cases hslot
          trivial
        · cases hslot
  · split
    · refine .pure fun slot hslot => ?_
      split at hslot
      · cases hslot
        trivial
      · cases hslot
    · exact (reads_readExpr _ s).bind fun t value _ _ => reads_fieldSlot _ _ value
  · exact (reads_readExpr _ s).bind fun _ _ _ _ => .pure (by simp)

theorem acts_flowTo {origin : Origin} (h : s.Covers origin) {slot : Option Slot}
    (hslot : ∀ sink ∈ slot, s.Holds sink) : Acts s (flowTo origin slot) := by
  cases slot with
  | none => exact .pure trivial
  | some sink => exact acts_addFlow h (hslot sink rfl)

theorem acts_assignAll (targets : List (Expr × (Ty × Origin)))
    (h : ∀ target ∈ targets, s.Covers target.2.2) : Acts s (assignAll targets) := by
  induction targets generalizing s with
  | nil => exact .pure trivial
  | cons target rest ih =>
    refine (reads_sink target.1).bind fun t slot hsteps hslot => ?_
    refine (acts_flowTo (hsteps.covers (h target List.mem_cons_self)) hslot).bind
      fun u _ hlater => ?_
    exact ih fun v hv => hlater.covers (hsteps.covers (h v (List.mem_cons_of_mem _ hv)))

theorem acts_declareAll (declared : Option Ty) (vars : List (String × (Ty × Origin)))
    (h : ∀ var ∈ vars, s.Covers var.2.2) : Acts s (declareAll declared vars) := by
  induction vars generalizing s with
  | nil => exact .pure trivial
  | cons var rest ih =>
    refine (acts_declare _ _ (h var List.mem_cons_self)).bind fun t _ hsteps => ?_
    exact ih fun v hv => hsteps.covers (h v (List.mem_cons_of_mem _ hv))

theorem acts_returnAll (i : Nat) (results : List (Ty × Origin))
    (h : ∀ r ∈ results, s.Covers r.2) : Acts s (returnAll i results) := by
  induction results generalizing s i with
  | nil => exact .pure trivial
  | cons r rest ih =>
    have hresult : s.Holds (.result s.frame.id i) := rfl
    refine .get ((acts_addFlow (h r List.mem_cons_self) hresult).bind fun t _ hsteps => ?_)
    exact ih (i + 1) fun v hv => hsteps.covers (h v (List.mem_cons_of_mem _ hv))

theorem acts_rangeAll (define : Bool) (names : List String) (types : List Ty) :
    Acts s (rangeAll define names types) := by
  induction names generalizing s types with
  | nil => exact .pure trivial
  | cons name rest ih =>
    unfold rangeAll
    split
    · exact (acts_declare _ _ (covers_unseen s)).bind fun _ _ _ => ih _
    · exact (reads_sink _).bind fun t slot _ hslot =>
        (acts_flowTo (covers_unseen t) hslot).bind fun _ _ _ => ih _

theorem acts_checkTypes (types : List Ty) : Acts s (checkTypes types) := by
  induction types generalizing s with
  | nil => exact .pure trivial
  | cons ty rest ih => exact (acts_checkType ty).bind fun _ _ _ => ih

theorem acts_bindVar (name : String) (ty : Ty) : Acts s (bindVar name ty) :=
  .get ((acts_modifyScope _).bind fun _ _ _ => .pure trivial)

theorem acts_declareSwitched (binding : Option String) {value : Value} (h : s.CoversValue value) :
    Acts s (declareSwitched binding value) := by
  cases binding with
  | none => exact .pure trivial
  | some name => exact acts_declare _ _ h.origin

theorem acts_openClause (binding : Option String) (ty : Ty) (types : List Ty) :
    Acts s (openClause binding ty types) := by
  refine (acts_checkTypes types).bind fun t _ _ => ?_
  cases binding with
  | none => exact .pure trivial
  | some name => exact acts_bindVar name _

theorem acts_closeClause (binding : Option String) (old : Option Ty) :
    Acts s (closeClause binding old) := by
  unfold closeClause
  split
  · exact (acts_bindVar _ _).bind fun _ _ _ => .pure trivial
  · exact .pure trivial

mutual

theorem acts_readStmt (stmt : Stmt) (s : State) : Acts s (readStmt stmt) := by
  cases stmt with
  | define names values =>
    unfold readStmt
    refine (reads_readValues values names.length).bind fun t found _ hfound => ?_
    exact acts_declareAll none _ fun var hvar => hfound _ (List.of_mem_zip hvar).2
  | var names ty values =>
    unfold readStmt
    refine (acts_checkTypes ty.toList).bind fun t _ _ => ?_
    refine (reads_readValues values names.length).bind fun u found _ hfound => ?_
    exact acts_declareAll ty _ fun var hvar => hfound _ (List.of_mem_zip hvar).2
  | assign targets values =>
    unfold readStmt
    refine (reads_readValues values targets.length).bind fun t found _ hfound => ?_
    exact acts_assignAll _ fun target htarget => hfound _ (List.of_mem_zip htarget).2
  | range names define e =>
    unfold readStmt
    exact (reads_readExpr e s).bind fun t value _ _ => acts_rangeAll _ _ _
  | typeSwitch binding e clauses =>
    unfold readStmt
    refine (reads_readExpr e s).bind fun t value _ hvalue => ?_
    exact (acts_declareSwitched _ hvalue).bind fun u _ _ => acts_readClauses _ _ clauses u
  | localTypes names =>
    unfold readStmt
    exact acts_modifyScope _
  | ret values =>
    unfold readStmt
    refine .get ((reads_readValues values _).bind fun t found _ hfound => ?_)
    exact acts_returnAll 0 found hfound
  | expr e =>
    unfold readStmt
    exact (reads_readExpr e s).bind fun _ _ _ _ => .pure trivial

theorem acts_readStmts (stmts : List Stmt) (s : State) : Acts s (readStmts stmts) := by
  cases stmts with
  | nil => exact .pure trivial
  | cons stmt rest =>
    unfold readStmts
    exact (acts_readStmt stmt s).bind fun t _ _ => acts_readStmts rest t

theorem acts_readClauses (binding : Option String) (ty : Ty) (clauses : List Clause) (s : State) :
    Acts s (readClauses binding ty clauses) := by
  cases clauses with
  | nil => exact .pure trivial
  | cons clause rest =>
    obtain ⟨types, body⟩ := clause
    unfold readClauses readClause
    refine Acts.bind ?_ fun t _ _ => acts_readClauses binding ty rest t
    refine (acts_openClause binding ty types).bind fun t old _ => ?_
    exact (acts_readStmts body t).bind fun u _ _ => acts_closeClause binding old

end

/-! ## Bodies -/

theorem acts_callInits {ids : List FuncId} (h : ∀ id ∈ ids, s.Names id) :
    Acts s (callInits ids) := by
  induction ids generalizing s with
  | nil => exact .pure trivial
  | cons id rest ih =>
    exact (reads_addSite (calls_static (h id List.mem_cons_self)) (by simp)
      (by simp) (by simp)).bind fun _ _ hsteps _ =>
      ih fun other hother => hsteps.names (h other (List.mem_cons_of_mem _ hother))

theorem names_of_mem_importedInits {f : Function} {id : FuncId}
    (h : id ∈ importedInits s.program f) : s.Names id := by
  unfold importedInits at h
  split at h
  · obtain ⟨path, _, hinit⟩ := List.mem_filterMap.mp h
    obtain ⟨q, hq, hid⟩ := Option.bind_eq_some_iff.mp hinit
    exact Or.inr (.init (mem_packages hq) hid)
  · cases h

theorem names_of_mem_ownInits {f : Function} {id : FuncId} (h : id ∈ ownInits s.program f) :
    s.Names id := by
  unfold ownInits at h
  split at h
  · cases hq : s.program.package? (f.package.getD "") with
    | none =>
      rw [hq] at h
      cases h
    | some q =>
      rw [hq] at h
      exact Or.inr (.userInit (mem_packages hq) h)
  · cases h

/-- **Main statement**: reading a body takes steps only. -/
theorem acts_readBody (f : Function) (body : List Stmt) : Acts s (readBody f body) := by
  refine (acts_checkTypes _).bind fun t _ _ => .get ?_
  refine (acts_callInits fun id hid => names_of_mem_importedInits hid).bind fun u _ hinits => ?_
  refine (acts_readStmts body u).bind fun v _ hbody => ?_
  exact acts_callInits fun id hid => hbody.names (hinits.names (names_of_mem_ownInits hid))

/-- What holds between bodies (`J`) gives what holds while one is read (`I`), and the other way
round. Then it holds when all bodies have been read. -/
theorem invariant_foldl_readFunction {I J : State → Prop}
    (hopen : ∀ {s : State} {id : FuncId} {f : Function} {body : List Stmt},
      s.program.functions[id]? = some f → f.body = some body → J s →
        I (s.enter id f))
    (hstep : ∀ {s t : State}, Step s t → I s → I t) (hclose : ∀ {s : State}, I s → J s.close)
    (ids : List FuncId) (hs : J s) : J (ids.foldl readFunction s) := by
  have hread : ∀ (s : State) (id : FuncId), J s → J (readFunction s id) := by
    intro s id hs
    unfold readFunction
    split
    · exact hs
    · rename_i f hf
      split
      · exact hs
      · rename_i body hbody
        have hreads := (acts_readBody (s := s.enter id f) f body).1
        exact hclose (hreads.preserves hstep (hopen hf hbody hs))
  exact List.foldlRecOn ids readFunction hs fun t ht id _ => hread t id ht

end CallAtlas.Resolve
