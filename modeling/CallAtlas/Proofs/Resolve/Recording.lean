import CallAtlas.Proofs.Resolve.Mute
import CallAtlas.Proofs.Resolve.Sights

/-!
# What reading records

`Records s m sites` says which sites a computation adds to those of the current function. Most
parts of the reader add none (`Silent`). The calls of a body add those that their sights give,
so the sites of the current function grow by one for each call that is met and known, in the
order of the body.

Main statement: `records_readStmts`.
-/

set_option autoImplicit false

namespace CallAtlas.Resolve

open Outline (Expr Elem Stmt Clause Call)

variable {α β : Type} {s : State}

/-! ## Every call is recorded once -/

/-- The sites that a computation adds to those of the current function. -/
def Records (s : State) (m : M α) (sites : List CallSite) : Prop :=
  (m.after s).frame.facts.sites = s.frame.facts.sites ++ sites

/-- The computation adds no sites. -/
abbrev Silent (m : M α) : Prop := ∀ s, Records s m []

theorem Records.pure (a : α) : Records s (Pure.pure a) [] := (List.append_nil _).symm

theorem Records.bind {m : M α} {k : α → M β} {sites sites' : List CallSite} (hm : Records s m sites)
    (hk : Records (m.after s) (k (m.answer s)) sites') : Records s (m >>= k) (sites ++ sites') := by
  have hm' : (m.after s).frame.facts.sites = s.frame.facts.sites ++ sites := hm
  have hk' : ((m >>= k).after s).frame.facts.sites = (m.after s).frame.facts.sites ++ sites' := hk
  show ((m >>= k).after s).frame.facts.sites = _
  rw [hk', hm', List.append_assoc]

theorem Records.get {k : State → M β} {sites : List CallSite} (h : Records s (k s) sites) :
    Records s (get >>= k) sites := h

/-- Nothing is added behind the computation. -/
theorem Records.then {m : M α} {k : α → M β} {sites : List CallSite} (hm : Records s m sites)
    (hk : ∀ a, Silent (k a)) : Records s (m >>= k) sites := by
  have h := hm.bind (hk (m.answer s) (m.after s))
  rwa [List.append_nil] at h

/-- Nothing is added before the computation. -/
theorem Silent.bind {m : M α} {k : α → M β} {sites : List CallSite} (hm : Silent m)
    (hk : Records (m.after s) (k (m.answer s)) sites) : Records s (m >>= k) sites := (hm s).bind hk

theorem silent_pure (a : α) : Silent (Pure.pure a) := fun _ => .pure a

theorem Silent.modify {f : State → State} (h : ∀ s, (f s).frame.facts.sites = s.frame.facts.sites) :
    Silent (modify f) := by
  intro s
  show (f s).frame.facts.sites = s.frame.facts.sites ++ []
  rw [h, List.append_nil]

theorem Records.set {t : State} {k : PUnit → M β} {sites : List CallSite} (h : t.frame = s.frame)
    (hk : Records t (k ⟨⟩) sites) : Records s (set t >>= k) sites := by
  show ((k ⟨⟩).after t).frame.facts.sites = s.frame.facts.sites ++ sites
  rw [← h]
  exact hk

theorem Mute.silent {m : M α} (h : Mute m) : Silent m := by
  intro s
  have hquiet : (m.after s).quiet = s.quiet := h s
  show (m.after s).quiet.frame.facts.sites = s.frame.facts.sites ++ []
  rw [hquiet, List.append_nil]
  rfl

theorem Silent.of_frame {m : M α} (h : ∀ s, (m.after s).frame = s.frame) : Silent m := by
  intro s
  show (m.after s).frame.facts.sites = s.frame.facts.sites ++ []
  rw [h, List.append_nil]

/-! ### Actions -/

theorem silent_modifyScope (f : Scope → Scope) : Silent (modifyScope f) := .modify fun _ => rfl

theorem records_addSite (target : CallTarget) (recv : Option Origin)
    (args : List Origin) (s : State) :
    Records s (addSite target recv args) [{ line := s.frame.line, target, recv, args }] := rfl

/-- A function that is added changes nothing in the frame. -/
theorem frame_after_addFunction (f : Function) (facts : Facts) (s : State) :
    ((addFunction f facts).after s).frame = s.frame := by
  unfold addFunction
  rw [M.after, run_get_bind]
  split <;> rfl

theorem frame_after_instantiate (id : FuncId) (typeArgs argTypes : List Ty) (s : State) :
    ((instantiate id typeArgs argTypes).after s).frame = s.frame := by
  show (M.after (if ((s.program.functions[id]?).getD default).isGeneric then _ else _) s).frame = _
  split
  · exact frame_after_addFunction _ _ s
  · rfl

theorem silent_boundMethod (method : FuncId) : Silent (boundMethod method) :=
  .of_frame fun s => frame_after_addFunction _ _ s

theorem silent_thunk (method : FuncId) : Silent (thunk method) :=
  .of_frame fun s => frame_after_addFunction _ _ s

theorem silent_external (path name : String) : Silent (external path name) :=
  .of_frame fun s => frame_after_addFunction _ _ s

theorem silent_declare (name : String) (ty : Ty) (origin : Origin) :
    Silent (declare name ty origin) := by
  intro s
  unfold declare
  split
  · exact .pure _
  · refine .get ?_
    split
    · exact Records.set rfl ((mute_addFlow _ _).silent _)
    · exact (silent_modifyScope _).bind ((mute_addFlow _ _).silent _)

/-! ### Names and members -/

theorem silent_readMethodOfType (ty : Ty) (name : String) : Silent (readMethodOfType ty name) := by
  intro s
  refine .get ?_
  split
  · exact (silent_thunk _).bind ((mute_funcValue _).silent _)
  · exact .pure _

theorem silent_readMember (operand : Expr) (value : Value) (name : String) :
    Silent (readMember operand value name) := by
  intro s
  refine .get ?_
  split
  · exact .pure _
  · exact (silent_boundMethod _).bind ((mute_funcValue _).silent _)
  · exact .pure _
  · exact (reports_checkMember _ _ _).mute.silent.bind (.pure _)

theorem silent_qualifiedCallee (qualifier path name : String) :
    Silent (qualifiedCallee qualifier path name) := by
  intro s
  refine .get ?_
  split
  · exact (silent_external _ _).bind (.pure _)
  · split
    · exact .pure _
    · split
      · exact .pure _
      · exact (reports_report _).mute.silent.bind (.pure _)

theorem silent_methodOfTypeCallee (ty : Ty) (name : String) :
    Silent (methodOfTypeCallee ty name) := by
  intro s
  refine .get ?_
  split
  · exact (silent_thunk _).bind (.pure _)
  · exact .pure _

/-- A call is recorded unless it is not known what it calls. -/
theorem records_finishCall (callee : Callee) (typeArgs : List Ty) (args : List Value) (s : State) :
    Records s (finishCall callee typeArgs args)
      (siteOf? callee typeArgs args s.frame.line s).toList := by
  -- making an instance leaves the line, and nothing is recorded behind the call
  have hinstance : ∀ (id : FuncId) (typeArgs : List Ty) (recv : Option Origin) {k : Nat → M Value},
      (∀ site, Silent (k site)) →
      Records s (instantiate id typeArgs (args.map Value.ty) >>= fun target =>
          addSite (.static target) recv (args.map Value.origin) >>= k)
        [{ line := s.frame.line,
           target := .static ((instantiate id typeArgs (args.map Value.ty)).answer s), recv,
           args := args.map Value.origin }] := by
    intro id typeArgs recv k hk
    refine Silent.bind (.of_frame fun s => frame_after_instantiate _ _ _ s) ?_
    have h :=
      (records_addSite (.static ((instantiate id typeArgs (args.map Value.ty)).answer s)) recv
        (args.map Value.origin) ((instantiate id typeArgs (args.map Value.ty)).after s)).then hk
    rwa [frame_after_instantiate] at h
  refine .get ?_
  cases callee with
  | unresolved => exact .pure _
  | function id own =>
    refine hinstance id _ none fun site t => ?_
    split <;> exact .pure _
  | method id recv =>
    dsimp only [siteOf?]
    split
    · exact (records_addSite _ _ _ s).then fun site t => .pure _
    · exact hinstance id [] (some recv) fun site t => .pure _
  | invoke iface method recv => exact (records_addSite _ _ _ s).then fun site t => .pure _
  | dynamic origin results => exact (records_addSite _ _ _ s).then fun site t => .pure _

/-! ### Expressions -/

/-- The sites of the calls among the sights. -/
abbrev sitesOf (sights : List Sight) : List CallSite := sights.filterMap Sight.site?

theorem sitesOf_append (a b : List Sight) : sitesOf (a ++ b) = sitesOf a ++ sitesOf b :=
  List.filterMap_append

theorem sitesOf_singleton (sight : Sight) : sitesOf [sight] = sight.site?.toList := by
  cases h : sight.site? <;> simp [h]

theorem sitesOf_typeSights (e : Expr) (h : (s.typeOperand? e).isSome) :
    sitesOf (typeSights s e h) = [] := by
  fun_induction typeSights s e h with
  | case1 inner h ih => exact ih
  | case2 base subscript asType h hbase ih =>
    rw [sitesOf_append, ih]
    rfl
  | case3 => rfl

/-- The name of an import holds no calls. -/
theorem sights_of_qualifier? {operand : Expr} {found : String × String}
    (h : s.qualifier? operand = some found) :
    (∀ htype, typeSights s operand htype = []) ∧ exprSights operand s = [] := by
  cases operand with
  | ident name => exact ⟨fun _ => rfl, by rw [exprSights]⟩
  | _ => cases h

theorem ident_of_isBuiltinCall {func : Expr} {name : String}
    (h : isBuiltinCall s func = some name) : ∃ n, func = .ident n := by
  cases func with
  | ident n => exact ⟨n, rfl⟩
  | _ => cases h

/-- A call is recorded behind what is met in its callee and in its arguments. -/
theorem records_call {c : Call} {read : List Sight}
    (hname : (∃ name, c.func = .ident name) → read = [])
    (hcallee : ¬ s.Converts c → ¬ s.CallsBuiltin c →
      Records s (readCallee s c.func) (sitesOf (calleeSights s c read)))
    (hargs : ∀ t, Records t (readExprs c.args) (sitesOf (exprsSights c.args t))) :
    Records s
      (match s.typeOperand? c.func with
      | some ty => do
        let values ← readExprs c.args
        pure { ty, origin := (values.getLast?.map Value.origin).getD {} : Value }
      | none =>
        match isBuiltinCall s c.func with
        | some name => do
          let values ← readExprs c.args
          pure (builtinValue (← get) name c.args values)
        | none => do
          let callee ← readCallee s c.func
          let values ← readExprs c.args
          setLine c.line
          finishCall callee c.typeArgs values)
      (sitesOf (calleeSights s c read ++ exprsSights c.args (s.atArgs c) ++ [.call s c])) := by
  rw [sitesOf_append, sitesOf_append]
  cases htype : s.typeOperand? c.func with
  | some ty =>
    have hconverts : s.Converts c := by rw [State.Converts, htype]; rfl
    have hcall : sitesOf [.call s c] = [] := by simp [Sight.site?, hconverts]
    have hinside : sitesOf (calleeSights s c read) = [] := by
      rw [calleeSights, dif_pos hconverts, sitesOf_typeSights]
    rw [hcall, hinside, List.append_nil, State.atArgs, if_pos (Or.inl hconverts)]
    exact (hargs s).then fun _ t => .pure _
  | none =>
    have hconverts : ¬ s.Converts c := by simp [State.Converts, htype]
    cases hbuiltin : isBuiltinCall s c.func with
    | some name =>
      have hcalls : s.CallsBuiltin c := by rw [State.CallsBuiltin, hbuiltin]; rfl
      have hcall : sitesOf [.call s c] = [] := by simp [Sight.site?, hcalls]
      have hinside : sitesOf (calleeSights s c read) = [] := by
        obtain ⟨n, hn⟩ := ident_of_isBuiltinCall hbuiltin
        rw [calleeSights, dif_neg hconverts, hn, hname ⟨n, hn⟩]
        rfl
      rw [hcall, hinside, List.append_nil, State.atArgs, if_pos (Or.inr hcalls)]
      exact (hargs s).then fun _ t => .get (.pure _)
    | none =>
      have hcalls : ¬ s.CallsBuiltin c := by simp [State.CallsBuiltin, hbuiltin]
      have hneither : ¬ (s.Converts c ∨ s.CallsBuiltin c) := not_or.mpr ⟨hconverts, hcalls⟩
      have hsite : sitesOf [.call s c] = (siteOf? ((readCallee s c.func).answer s) c.typeArgs
          (s.argValues c) c.line ((setLine c.line).after
              ((readExprs c.args).after (s.atArgs c)))).toList := by
        rw [sitesOf_singleton, Sight.site?, if_neg hneither]
      have hargs' := hargs (s.atArgs c)
      rw [hsite, State.argValues]
      rw [State.atArgs, if_neg hneither] at hargs' ⊢
      rw [List.append_assoc]
      refine (hcallee hconverts hcalls).bind (hargs'.bind ((mute_setLine c.line).silent.bind ?_))
      exact records_finishCall _ _ _ _

mutual

theorem records_readExpr (e : Expr) (s : State) :
    Records s (readExpr e) (sitesOf (exprSights e s)) := by
  cases e with
  | ident name =>
    rw [exprSights, readExpr]
    exact (mute_readIdent name).silent s
  | selector operand name =>
    rw [exprSights, readExpr]
    refine .get ?_
    cases hqualifier : s.qualifier? operand with
    | some found =>
      obtain ⟨htype, hread⟩ := sights_of_qualifier? hqualifier
      simp only [htype, hread, dite_eq_ite, ite_self]
      exact (mute_readQualified _ _ _).silent s
    | none =>
      by_cases htype : (s.typeOperand? operand).isSome
      · obtain ⟨ty, hty⟩ := Option.isSome_iff_exists.mp htype
        rw [dif_pos htype, sitesOf_typeSights, hty]
        exact silent_readMethodOfType _ _ s
      · rw [dif_neg htype, Option.not_isSome_iff_eq_none.mp htype]
        exact (records_readExpr operand s).then fun value => silent_readMember _ _ _
  | call func args typeArgs line =>
    rw [readExpr_call, exprSights]
    refine (mute_setLine line).silent.bind (.get ?_)
    refine records_call (c := ⟨func, args, typeArgs, line⟩) ?_ ?_ (records_readExprs args)
    · rintro ⟨name, rfl⟩
      rw [exprSights]
    · intro hconverts _
      exact records_readCallee func args typeArgs line _ hconverts (records_readExpr func _)
  | composite ty pointer elems =>
    rw [exprSights, readExpr]
    refine (reports_checkType ty).mute.silent.bind ((mute_allocate ty).silent.bind ?_)
    exact (records_readElems _ _ _ elems _).then fun _ s => .pure _
  | new ty =>
    rw [exprSights, readExpr]
    exact (reports_checkType ty).mute.silent.bind ((mute_allocate ty).silent.bind (.pure _))
  | funcLit index =>
    rw [exprSights, readExpr]
    refine .get ?_
    split
    · exact (mute_funcValue _).silent s
    · exact .pure _
  | assert operand ty =>
    rw [exprSights, readExpr]
    exact (reports_checkType ty).mute.silent.bind
      ((records_readExpr operand _).then fun _ s => .pure _)
  | convert ty operand =>
    rw [exprSights, readExpr]
    exact (reports_checkType ty).mute.silent.bind
      ((records_readExpr operand _).then fun _ s => .pure _)
  | index base index asType =>
    rw [exprSights, readExpr, sitesOf_append]
    exact (records_readExpr base s).bind ((records_readExpr index _).then fun _ s => .pure _)
  | unary op operand =>
    rw [exprSights, readExpr]
    exact (records_readExpr operand s).then fun _ s => .pure _
  | lit ty =>
    rw [exprSights, readExpr]
    exact .pure _
  | type ty =>
    rw [exprSights, readExpr]
    exact (reports_checkType ty).mute.silent.bind (.pure _)
  | other items =>
    rw [exprSights, readExpr]
    exact (records_readExprs items s).then fun _ s => .pure _

/-- What is called is found by reading it, unless it stands for a type. An expression with no rule
of its own as a callee is read as a value, which is why reading it is taken for granted here. -/
theorem records_readCallee (func : Expr) (args : List Expr) (typeArgs : List Ty)
    (line : Nat) (s : State) (hconverts : ¬ s.Converts ⟨func, args, typeArgs, line⟩)
    (hfunc : Records s (readExpr func) (sitesOf (exprSights func s))) :
    Records s (readCallee s func)
      (sitesOf (calleeSights s ⟨func, args, typeArgs, line⟩ (exprSights func s))) := by
  rw [calleeSights, dif_neg hconverts]
  dsimp only
  cases func with
  | ident name =>
    rw [exprSights, readCallee, readCalleeOr]
    split
    · exact .pure _
    · exact (mute_readIdent name).silent.bind (.pure _)
  | selector operand name =>
    rw [exprSights, readCallee, readCalleeOr]
    cases hqualifier : s.qualifier? operand with
    | some found =>
      obtain ⟨htype, hread⟩ := sights_of_qualifier? hqualifier
      simp only [htype, hread, dite_eq_ite, ite_self]
      exact silent_qualifiedCallee _ _ _ s
    | none =>
      by_cases htype : (s.typeOperand? operand).isSome
      · obtain ⟨ty, hty⟩ := Option.isSome_iff_exists.mp htype
        rw [dif_pos htype, sitesOf_typeSights, hty]
        exact silent_methodOfTypeCallee _ _ s
      · rw [dif_neg htype, Option.not_isSome_iff_eq_none.mp htype]
        exact (records_readExpr operand s).then fun value => (mute_memberCallee _ _ _).silent
  | funcLit index =>
    rw [exprSights, readCallee, readCalleeOr]
    split <;> exact .pure _
  | index base index asType =>
    rw [readCallee, readCalleeOr]
    dsimp only
    by_cases hgeneric : (genericBase? s base).isSome
    · obtain ⟨id, hid⟩ := Option.isSome_iff_exists.mp hgeneric
      rw [dif_pos hgeneric, hid]
      exact .pure _
    · rw [dif_neg hgeneric, Option.not_isSome_iff_eq_none.mp hgeneric, exprSights, sitesOf_append]
      exact (records_readExpr base s).bind ((records_readExpr index _).then fun _ u => .pure _)
  | _ => exact hfunc.then fun _ u => .pure _

theorem records_readExprs (es : List Expr) (s : State) :
    Records s (readExprs es) (sitesOf (exprsSights es s)) := by
  cases es with
  | nil =>
    rw [exprsSights, readExprs]
    exact .pure _
  | cons e rest =>
    rw [exprsSights, readExprs, sitesOf_append]
    exact (records_readExpr e s).bind ((records_readExprs rest _).then fun _ s => .pure _)

theorem records_readElems (ty : Ty) (owner : Option TypeId) (i : Nat)
    (elems : List Elem) (s : State) :
    Records s (readElems ty owner i elems) (sitesOf (elemsSights ty owner i elems s)) := by
  cases elems with
  | nil =>
    rw [elemsSights, readElems]
    exact .pure _
  | cons elem rest =>
    obtain ⟨key, value⟩ := elem
    rw [elemsSights, readElems, sitesOf_append]
    refine (records_readExpr value s).bind ((mute_flowIntoField _ _ _ _ _).silent.bind ?_)
    exact records_readElems ty owner (i + 1) rest _

end

/-! ### Statements -/

theorem records_readValues (values : List Expr) (count : Nat) (s : State) :
    Records s (readValues values count) (sitesOf (exprsSights values s)) :=
  (records_readExprs values s).then fun _ _ => .pure _

theorem records_sink (target : Expr) (s : State) :
    Records s (sink target) (sitesOf (exprSights (readPart target) s)) := by
  cases target with
  | ident name =>
    rw [readPart, exprSights]
    · refine .get ?_
      dsimp only
      split
      · exact .pure _
      · split <;> exact .pure _
    · simp
  | selector operand name =>
    rw [readPart]
    refine .get ?_
    dsimp only
    split
    · rename_i himported
      cases operand with
      | ident qualifier =>
        rw [exprSights]
        exact .pure _
      | _ => cases himported
    · exact (records_readExpr operand s).then fun value =>
        (mute_fieldSlot operand name value).silent
  | _ => exact Records.get ((records_readExpr _ s).then fun _ t => .pure _)

theorem records_assignAll (targets : List (Expr × (Ty × Origin))) (s : State) :
    Records s (assignAll targets) (sitesOf (targetsSights targets s)) := by
  induction targets generalizing s with
  | nil => exact .pure _
  | cons target rest ih =>
    obtain ⟨target, value⟩ := target
    rw [targetsSights, sitesOf_append, assignAll_cons]
    exact ((records_sink target s).then fun slot => (mute_flowTo value.2 slot).silent).bind (ih _)

theorem silent_declareAll (declared : Option Ty) (vars : List (String × (Ty × Origin))) :
    Silent (declareAll declared vars) := by
  induction vars with
  | nil => exact fun s => .pure _
  | cons var rest ih => exact fun s => (silent_declare _ _ _).bind (ih _)

theorem silent_bindVar (name : String) (ty : Ty) : Silent (bindVar name ty) :=
  fun _ => .get ((silent_modifyScope _).bind (.pure _))

theorem silent_rangeAll (define : Bool) (names : List String) (types : List Ty) :
    Silent (rangeAll define names types) := by
  induction names generalizing types with
  | nil => exact fun s => .pure _
  | cons name rest ih =>
    intro s
    unfold rangeAll
    split
    · exact (silent_declare _ _ _).bind (ih _ _)
    · have hsink : Silent (sink (.ident name)) := by
        intro s
        have h := records_sink (.ident name) s
        rwa [readPart, exprSights] at h
        simp
      exact hsink.bind ((mute_flowTo _ _).silent.bind (ih _ _))

theorem silent_declareSwitched (binding : Option String) (value : Value) :
    Silent (declareSwitched binding value) := by
  cases binding with
  | some name => exact silent_declare _ _ _
  | none => exact silent_pure _

theorem silent_openClause (binding : Option String) (ty : Ty) (types : List Ty) :
    Silent (openClause binding ty types) := by
  intro s
  refine (reports_checkTypes types).mute.silent.bind ?_
  cases binding with
  | some name => exact silent_bindVar _ _ _
  | none => exact .pure _

theorem silent_closeClause (binding : Option String) (old : Option Ty) :
    Silent (closeClause binding old) := by
  cases binding with
  | none => exact silent_pure _
  | some name =>
    cases old with
    | none => exact silent_pure _
    | some ty => exact fun s => (silent_bindVar _ _).bind (.pure _)

mutual

theorem records_readStmt (stmt : Stmt) (s : State) :
    Records s (readStmt stmt) (sitesOf (stmtSights stmt s)) := by
  cases stmt with
  | define names values =>
    rw [stmtSights, readStmt]
    exact (records_readValues values _ s).then fun _ => silent_declareAll _ _
  | var names ty values =>
    rw [stmtSights, readStmt]
    refine (reports_checkTypes _).mute.silent.bind ?_
    exact (records_readValues values _ _).then fun _ => silent_declareAll _ _
  | assign targets values =>
    rw [stmtSights, readStmt, sitesOf_append]
    exact (records_readValues values _ s).bind (records_assignAll _ _)
  | range names define e =>
    rw [stmtSights, readStmt]
    exact (records_readExpr e s).then fun _ => silent_rangeAll _ _ _
  | typeSwitch binding e clauses =>
    rw [stmtSights, readStmt, sitesOf_append]
    refine (records_readExpr e s).bind ((silent_declareSwitched _ _).bind ?_)
    exact records_readClauses _ _ clauses _
  | localTypes names =>
    rw [stmtSights, readStmt]
    exact silent_modifyScope _ s
  | ret values =>
    rw [stmtSights, readStmt]
    exact .get ((records_readValues values _ s).then fun _ => (mute_returnAll 0 _).silent)
  | expr e =>
    rw [stmtSights, readStmt]
    exact (records_readExpr e s).then fun _ t => .pure _

theorem records_readStmts (stmts : List Stmt) (s : State) :
    Records s (readStmts stmts) (sitesOf (stmtsSights stmts s)) := by
  cases stmts with
  | nil =>
    rw [stmtsSights, readStmts]
    exact .pure _
  | cons stmt rest =>
    rw [stmtsSights, readStmts, sitesOf_append]
    exact (records_readStmt stmt s).bind (records_readStmts rest _)

theorem records_readClauses (binding : Option String) (ty : Ty)
    (clauses : List Clause) (s : State) :
    Records s (readClauses binding ty clauses) (sitesOf (clausesSights binding ty clauses s)) := by
  cases clauses with
  | nil =>
    rw [clausesSights, readClauses]
    exact .pure _
  | cons clause rest =>
    obtain ⟨types, body⟩ := clause
    rw [clausesSights, sitesOf_append, readClauses]
    refine Records.bind ?_ (records_readClauses binding ty rest _)
    rw [readClause]
    refine (silent_openClause _ _ _).bind ?_
    exact (records_readStmts body _).then fun _ => silent_closeClause _ _

end

end CallAtlas.Resolve
