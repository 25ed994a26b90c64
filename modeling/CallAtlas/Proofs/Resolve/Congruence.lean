import CallAtlas.Proofs.Resolve.Agreement

/-!
# Reading agrees

Read in states that are alike, an expression has the same type and leaves the same calls, on
whatever line it stands, unless it refers to a variable that is hidden. So does a statement.
What the values of an expression flow from is not compared; it matters to a call by name only
whether there is anything to flow from, which tells a function value from a name that stands for
nothing (`Value.shape`).

Main statements: `agree_readExpr`, `follow_readStmts`.
-/

set_option autoImplicit false

namespace CallAtlas.Resolve

open Outline (Expr Elem Stmt Clause exprParts exprsParts elemsParts stmtParts
  stmtsParts clausesParts unlinedAll unlinedElems unlinedStmts unlinedClauses)

variable {b : Program} {x : Hidden} {s s' t t' : State}

/-! ## Answers -/

/-- What matters of a value: its type, whether it comes from anywhere, and the types of the
results of a call. -/
def Value.shape (v : Value) : Ty × Bool × List Ty :=
  (v.ty, v.origin.isEmpty, v.results.map Prod.fst)

theorem Value.ty_eq {v v' : Value} (h : v.shape = v'.shape) : v.ty = v'.ty := congrArg Prod.fst h

theorem Value.isEmpty_eq {v v' : Value} (h : v.shape = v'.shape) :
    v.origin.isEmpty = v'.origin.isEmpty :=
  congrArg (fun p => p.2.1) h

/-- Values of one shape. -/
def SameShape (_ _ : State) (v v' : Value) : Prop := v.shape = v'.shape

/-- Values of one shape each. -/
def SameShapes (_ _ : State) (vs vs' : List Value) : Prop :=
  vs.map Value.shape = vs'.map Value.shape

/-- What is called is the same, and a method is one of the program. -/
inductive SameCallee (b : Program) (s s' : State) : Callee → Callee → Prop
  | function {id id' : FuncId} (h : Same s s' id id') (typeArgs : List Ty) :
      SameCallee b s s' (.function id typeArgs) (.function id' typeArgs)
  | method {id : FuncId} (h : id < b.functions.length) (recv recv' : Origin) :
      SameCallee b s s' (.method id recv) (.method id recv')
  | invoke (iface : TypeId) (method : String) (recv recv' : Origin) :
      SameCallee b s s' (.invoke iface method recv) (.invoke iface method recv')
  | dynamic (callee callee' : Origin) (results : Nat) :
      SameCallee b s s' (.dynamic callee results) (.dynamic callee' results)
  | unresolved : SameCallee b s s' .unresolved .unresolved

theorem SameCallee.mono {callee callee' : Callee} (h : SameCallee b s s' callee callee')
    (hs : s.program.functions <+: t.program.functions)
    (hs' : s'.program.functions <+: t'.program.functions) :
    SameCallee b t t' callee callee' := by
  cases h with
  | function h typeArgs => exact .function (h.mono hs hs') typeArgs
  | method h recv recv' => exact .method h recv recv'
  | invoke iface method recv recv' => exact .invoke iface method recv recv'
  | dynamic callee callee' results => exact .dynamic callee callee' results
  | unresolved => exact .unresolved

theorem shape_siteResults (id id' : FuncId) (site site' : Nat) (types : List Ty) :
    (siteResults id site types).shape = (siteResults id' site' types).shape := by
  cases types with
  | nil => rfl
  | cons ty rest =>
    simp only [Value.shape, siteResults, Value.ofResults, List.map_map, Function.comp_def]
    rfl

theorem shape_signedValue (op : Source.UnaryOp) {v v' : Value} (h : v.shape = v'.shape) :
    (signedValue op v).shape = (signedValue op v').shape := by
  have hty := Value.ty_eq h
  have hempty := Value.isEmpty_eq h
  unfold signedValue
  cases op with
  | deref =>
    dsimp only
    rw [hty]
    split <;> simp only [Value.shape, hempty]
  | _ => simp only [Value.shape, hty, hempty]

theorem sameCallee_dynamicCallee {u u' : Universe} (hu : u = u') {v v' : Value}
    (h : v.shape = v'.shape) : SameCallee b s s' (dynamicCallee u v) (dynamicCallee u' v') := by
  have hcallee : ∀ (callable : Bool) (results : Nat), SameCallee b s s'
      (if callable then .dynamic v.origin results else .unresolved)
      (if callable then .dynamic v'.origin results else .unresolved) := by
    intro callable results
    cases callable with
    | true => exact .dynamic _ _ _
    | false => exact .unresolved
  unfold dynamicCallee
  rw [hu, Value.ty_eq h, Value.isEmpty_eq h]
  exact hcallee _ _

/-! ## Names -/

theorem shape_funcValue {id id' : FuncId} (h : Same s s' id id') :
    ((funcValue id).answer s).shape = ((funcValue id').answer s').shape := by
  obtain ⟨f, f', hf, hf', hface⟩ := h
  have hsignature : f.signature = f'.signature := by
    have hfaces : f.face.signature = f'.face.signature := congrArg Function.signature hface
    exact hfaces
  have hshape : ∀ (id : FuncId) (s : State), ((funcValue id).answer s).shape =
      (.func (((s.program.functions[id]?).map Function.signature).getD {}).params.length
        (((s.program.functions[id]?).map Function.signature).getD {}).results.length, false, []) :=
    fun _ _ => rfl
  rw [hshape, hshape, hf, hf', Option.map_some, Option.map_some, hsignature]

theorem agree_funcValue (h : Alike b x s s') {id id' : FuncId} (hsame : Same s s' id id') :
    Agree b s s' (funcValue id) (funcValue id') SameShape :=
  .mute h (mute_funcValue id) (mute_funcValue id') (shape_funcValue hsame)

/-- The function that the package declares under a name is one of the program. -/
theorem Alike.same_ownFunc? (hb : Ground b) (h : Alike b x s s') {name : String} {id : FuncId}
    (hid : s'.ownFunc? name = some id) : Same s s' id id :=
  h.same (hb.lt_of_packageFunc? ((h.right.packageFunc? _ _).symm.trans hid))

theorem Alike.same_funcs (hb : Ground b) (h : Alike b x s s') {path name : String}
    {q : Package} {id : FuncId} (hq : s'.program.package? path = some q)
    (hid : q.funcs.get? name = some id) : Same s s' id id :=
  h.same (hb.lt_of_funcs ((h.right.package? path).symm.trans hq) hid)

theorem Alike.same_closure? (hb : Ground b) (h : Alike b x s s') {index : Nat} {id : FuncId}
    (hid : s'.closure? index = some id) : Same s s' id id := by
  unfold State.closure? at hid
  have hbound : ((b.functions[s'.frame.id]?).bind fun f => f.closures[index]?) = some id :=
    (h.right.bind_function h.right.current fun _ => rfl).symm.trans hid
  obtain ⟨f, hf, hid⟩ := Option.bind_eq_some_iff.mp hbound
  exact h.same (hb.listed (.literal (List.mem_of_getElem? hf) (List.mem_of_getElem? hid)))

theorem Alike.same_genericBase? (h : Alike b x s s') {e : Expr} {id : FuncId}
    (hid : Resolve.genericBase? s' e = some id) : Same s s' id id := by
  obtain ⟨f, hf, hgeneric⟩ := isGeneric_of_genericBase? hid
  exact h.same (h.right.lt_of_isGeneric hf hgeneric)

theorem agree_readIdent (hb : Ground b) (h : Alike b x s s') {name : String}
    (hname : name ∉ x.names) : Agree b s s' (readIdent name) (readIdent name) SameShape := by
  refine .get ?_
  rw [h.localVar? hb]
  split
  · exact .pure h rfl
  · split
    · exact .pure h rfl
    · rw [h.ownFunc?]
      split
      · rename_i hid
        exact agree_funcValue h (h.same_ownFunc? hb hid)
      · rw [h.isOwnMember, h.decls_eq, h.pkg_eq]
        split
        · split
          · exact .pure h rfl
          · refine .pure h ?_
            rw [← h.pkg_eq, h.globalValue fun _ => hname]
            rfl
        · have hreport : ∀ s : State, Mute (do
              if !s.isImplicit name then report (.undefined name)
              pure Value.unseen) := by
            intro s
            split
            · exact fun t => ((reports_report _).mute t).bind fun _ _ => .pure _
            · exact fun t => .pure _
          refine .mute h (hreport s) (hreport s') ?_
          split <;> split <;> rfl

/-- The variable behind the name of an import is shown. -/
theorem Alike.not_hidden (h : Alike b x s s') {qualifier path name : String}
    (hname : name ∉ x.qualified) (hpath : s.frame.imports.get? qualifier = some path)
    (hown : path = s.frame.pkg) : name ∉ x.names := by
  rw [hown] at hpath
  exact fun hhidden => hname (h.own hpath hhidden)

theorem agree_readQualified (hb : Ground b) (h : Alike b x s s') {qualifier path name : String}
    (hpath : s.frame.imports.get? qualifier = some path) (hname : name ∉ x.qualified) :
    Agree b s s' (readQualified qualifier path name) (readQualified qualifier path name)
      SameShape := by
  refine .get ?_
  rw [h.package?]
  split
  · exact .pure h rfl
  · rename_i hpackage
    split
    · rename_i hid
      exact agree_funcValue h (h.same_funcs hb hpackage hid)
    · split
      · rw [h.decls_eq, h.globalValue (h.not_hidden hname hpath)]
        split <;> exact .pure h rfl
      · exact .after_mute h (reports_report _).mute (reports_report _).mute
          fun t t' _ _ ht => .pure ht rfl

theorem agree_readMethodOfType (hb : Ground b) (h : Alike b x s s') (ty : Ty) (name : String) :
    Agree b s s' (readMethodOfType ty name) (readMethodOfType ty name) SameShape := by
  refine .get ?_
  rw [h.methodOfType?]
  split
  · rename_i method hmethod
    obtain ⟨owner, _, hid⟩ := Option.bind_eq_some_iff.mp hmethod
    rw [h.right.decls] at hid
    exact .bind h (agree_thunk hb h (hb.lt_of_methodOf hid)) fun t t' id id' ht _ _ hsame =>
      agree_funcValue ht hsame
  · exact .pure h rfl

theorem agree_readMember (hb : Ground b) (h : Alike b x s s') (operand operand' : Expr)
    {v v' : Value} (hv : v.shape = v'.shape) (name : String) :
    Agree b s s' (readMember operand v name) (readMember operand' v' name) SameShape := by
  refine .get ?_
  rw [h.decls_eq, Value.ty_eq hv]
  split
  · exact .pure h rfl
  · rename_i method hmethod
    rw [h.right.decls] at hmethod
    exact .bind h (agree_boundMethod hb h (hb.lt_of_member hmethod)) fun t t' id id' ht _ _ hsame =>
      agree_funcValue ht hsame
  · exact .pure h rfl
  · exact .after_mute h (reports_checkMember _ _ _).mute (reports_checkMember _ _ _).mute
      fun t t' _ _ ht => .pure ht rfl

theorem agree_allocate (h : Alike b x s s') (ty : Ty) :
    Agree b s s' (allocate ty) (allocate ty) fun _ _ found found' => found = found' := by
  refine .mute h (mute_allocate ty) (mute_allocate ty) ?_
  unfold allocate
  split
  · rw [M.answer, M.answer, run_get_bind, run_get_bind, h.decls_eq]
    dsimp only
    split
    · rfl
    · split <;> rfl
  · rfl

theorem shape_builtinValue (hb : Ground b) (h : Alike b x s s') (name : String)
    {args args' : List Expr}
    (hargs : args.head?.bind s'.typeOperand? = args'.head?.bind s'.typeOperand?)
    {values values' : List Value} (hvalues : values.map Value.shape = values'.map Value.shape) :
    (builtinValue s name args values).shape = (builtinValue s' name args' values').shape := by
  have hhead : (values.head?.getD {}).shape = (values'.head?.getD {}).shape := by
    cases values with
    | nil => cases values' with
      | nil => rfl
      | cons v' rest' => cases hvalues
    | cons v rest => cases values' with
      | nil => cases hvalues
      | cons v' rest' => exact (List.cons.inj hvalues).1
  have htype : args.head?.bind s.typeOperand? = args'.head?.bind s'.typeOperand? := by
    rw [← hargs]
    exact Option.bind_congr fun e _ => h.typeOperand? hb e
  unfold builtinValue
  rw [htype]
  split
  · exact hhead
  · split
    · rfl
    · split
      · rfl
      · split <;> rfl

/-! ## What a call calls -/

theorem agree_qualifiedCallee (hb : Ground b) (h : Alike b x s s') {qualifier path name : String}
    (hpath : s.frame.imports.get? qualifier = some path)
    (hname : Text.isIdentifier name = true ∧ name ∉ x.qualified) :
    Agree b s s' (qualifiedCallee qualifier path name) (qualifiedCallee qualifier path name)
      (SameCallee b) := by
  refine .get ?_
  rw [h.package?]
  split
  · exact .bind h (agree_external hb h path hname.1) fun t t' id id' ht _ _ hsame =>
      .pure ht (.function hsame [])
  · rename_i hpackage
    split
    · rename_i hid
      exact .pure h (.function (h.same_funcs hb hpackage hid) [])
    · split
      · rw [h.globalValue (h.not_hidden hname.2 hpath)]
        exact .pure h (.dynamic _ _ _)
      · exact .after_mute h (reports_report _).mute (reports_report _).mute fun t t' _ _ ht =>
          .pure ht .unresolved

theorem agree_methodOfTypeCallee (hb : Ground b) (h : Alike b x s s') (ty : Ty) (name : String) :
    Agree b s s' (methodOfTypeCallee ty name) (methodOfTypeCallee ty name) (SameCallee b) := by
  refine .get ?_
  rw [h.methodOfType?]
  split
  · rename_i method hmethod
    obtain ⟨owner, _, hid⟩ := Option.bind_eq_some_iff.mp hmethod
    rw [h.right.decls] at hid
    exact .bind h (agree_thunk hb h (hb.lt_of_methodOf hid)) fun t t' id id' ht _ _ hsame =>
      .pure ht (.function hsame [])
  · exact .pure h .unresolved

theorem agree_memberCallee (hb : Ground b) (h : Alike b x s s') (operand operand' : Expr)
    {v v' : Value} (hv : v.shape = v'.shape) (name : String) :
    Agree b s s' (memberCallee operand v name) (memberCallee operand' v' name) (SameCallee b) := by
  refine .get ?_
  rw [h.decls_eq, Value.ty_eq hv]
  split
  · rename_i method hmethod
    rw [h.right.decls] at hmethod
    exact .pure h (.method (hb.lt_of_member hmethod) _ _)
  · exact .pure h (.invoke _ _ _ _)
  · exact .pure h (.dynamic _ _ _)
  · exact .after_mute h (reports_checkMember _ _ _).mute (reports_checkMember _ _ _).mute
      fun t t' _ _ ht => .pure ht .unresolved

/-- What a function returns is seen from outside. -/
theorem Same.resultTypes {id id' : FuncId} (h : Same s s' id id') :
    ((s.program.functions[id]?).getD default).resultTypes =
      ((s'.program.functions[id']?).getD default).resultTypes := by
  obtain ⟨f, f', hf, hf', hface⟩ := h
  have hresults : f.face.resultTypes = f'.face.resultTypes := congrArg Function.resultTypes hface
  rw [hf, hf']
  exact hresults

theorem Same.kind {id id' : FuncId} (h : Same s s' id id') :
    ((s.program.functions[id]?).getD default).kind =
      ((s'.program.functions[id']?).getD default).kind := by
  obtain ⟨f, f', hf, hf', hface⟩ := h
  have hkind : f.face.kind = f'.face.kind := congrArg Function.kind hface
  rw [hf, hf']
  exact hkind

/-- A call that is recorded behind its arguments has the same target and the same results. -/
theorem agree_finishCall (hb : Ground b) (h : Alike b x s s') {callee callee' : Callee}
    (hcallee : SameCallee b s s' callee callee') (typeArgs : List Ty) {args args' : List Value}
    (hargs : args.map Value.shape = args'.map Value.shape) :
    Agree b s s' (finishCall callee typeArgs args) (finishCall callee' typeArgs args')
      SameShape := by
  have htypes : args.map Value.ty = args'.map Value.ty := by
    have hfirst := congrArg (List.map Prod.fst) hargs
    rwa [List.map_map, List.map_map] at hfirst
  refine .get ?_
  rw [htypes]
  cases hcallee with
  | unresolved => exact .pure h rfl
  | function hsame own =>
    dsimp only
    refine .bind h (agree_instantiate hb h hsame _ _) fun t t' target target' ht _ _ htarget => ?_
    refine .bind ht (agree_addSite_static _ _ _ _ ht htarget) fun u u' site site' hu _ _ _ => ?_
    simp only [hsame.kind, hsame.resultTypes]
    split
    · exact .pure hu rfl
    · exact .pure hu (shape_siteResults _ _ _ _ _)
  | method hid recv recv' =>
    have hsame := h.same hid
    have hrecord : ∀ {t t' : State} {target target' : FuncId}, Alike b x t t' →
        Same t t' target target' → ∀ types, Agree b t t'
          (addSite (.static target) (some recv) (args.map Value.origin) >>= fun site =>
            pure (siteResults s.frame.id site types))
          (addSite (.static target') (some recv') (args'.map Value.origin) >>= fun site =>
            pure (siteResults s'.frame.id site types)) SameShape := by
      intro t t' target target' ht htarget types
      exact .bind ht (agree_addSite_static _ _ _ _ ht htarget) fun u u' site site' hu _ _ _ =>
        .pure hu (shape_siteResults _ _ _ _ _)
    dsimp only
    rw [h.isWithinReceiver hb hid, hsame.resultTypes]
    split
    · exact hrecord h hsame _
    · exact .bind h (agree_instantiate hb h hsame _ _) fun t t' target target' ht _ _ htarget =>
        hrecord ht htarget _
  | invoke iface method recv recv' =>
    dsimp only
    refine .bind h (agree_addSite _ _ _ _ h (by simp) (by simp)) fun u u' site site' hu _ _ _ => ?_
    rw [h.decls_eq]
    exact .pure hu (shape_siteResults _ _ _ _ _)
  | dynamic origin origin' results =>
    dsimp only
    refine .bind h (agree_addSite _ _ _ _ h (by simp) (by simp)) fun u u' site site' hu _ _ _ => ?_
    exact .pure hu (shape_siteResults _ _ _ _ _)

/-! ## Expressions -/

theorem typeOperand?_unlined (s : State) (e : Expr) :
    s.typeOperand? e.unlined = s.typeOperand? e := by
  cases e with
  | selector operand name => cases operand <;> simp only [Expr.unlined, State.typeOperand?]
  | unary op operand =>
    cases op <;> simp only [Expr.unlined, State.typeOperand?]
    rw [typeOperand?_unlined s operand]
  | index base subscript asType =>
    simp only [Expr.unlined, State.typeOperand?]
    exact typeOperand?_unlined s base
  | _ => simp only [Expr.unlined, State.typeOperand?]

theorem qualifier?_unlined (s : State) (e : Expr) : s.qualifier? e.unlined = s.qualifier? e := by
  cases e <;> simp only [Expr.unlined, State.qualifier?]

theorem isBuiltinCall_unlined (s : State) (e : Expr) :
    isBuiltinCall s e.unlined = isBuiltinCall s e := by
  cases e <;> simp only [Expr.unlined, isBuiltinCall]

theorem genericBase?_unlined (s : State) (e : Expr) :
    genericBase? s e.unlined = genericBase? s e := by
  cases e with
  | selector operand name => cases operand <;> simp only [Expr.unlined, genericBase?]
  | _ => simp only [Expr.unlined, genericBase?]

theorem getLast_isEmpty {vs vs' : List Value} (h : vs.map Value.shape = vs'.map Value.shape) :
    ((vs.getLast?.map Value.origin).getD {}).isEmpty =
      ((vs'.getLast?.map Value.origin).getD {}).isEmpty := by
  have hlast := congrArg List.getLast? h
  rw [List.getLast?_map, List.getLast?_map] at hlast
  cases hv : vs.getLast? with
  | none =>
    rw [hv] at hlast
    rw [Option.map_eq_none_iff.mp hlast.symm]
  | some v =>
    rw [hv] at hlast
    obtain ⟨v', hv', hshape⟩ := Option.map_eq_some_iff.mp hlast.symm
    rw [hv']
    exact (Value.isEmpty_eq hshape).symm

/-- The path that an operand stands for is that of an import. -/
theorem imports_of_qualifier? {operand : Expr} {qualifier path : String}
    (h : s.qualifier? operand = some (qualifier, path)) :
    s.frame.imports.get? qualifier = some path := by
  cases operand with
  | ident name =>
    obtain ⟨path', hpath, heq⟩ := Option.map_eq_some_iff.mp h
    obtain ⟨rfl, rfl⟩ := Prod.mk.inj heq
    unfold State.importOf? at hpath
    split at hpath
    · cases hpath
    · exact hpath
  | _ => cases h

theorem agree_after_checkType {α β : Type} {k : Unit → M α} {k' : Unit → M β}
    {Q : State → State → α → β → Prop} (h : Alike b x s s') (ty : Ty)
    (hk : ∀ t t', Alike b x t t' → Agree b t t' (k ()) (k' ()) Q) :
    Agree b s s' (checkType ty >>= k) (checkType ty >>= k') Q :=
  .after_mute h (reports_checkType ty).mute (reports_checkType ty).mute
    fun t t' _ _ ht => hk t t' ht

/-- A call agrees if what is called and the arguments do, from wherever they are read. -/
theorem agree_call (hb : Ground b) (func : Expr) (args : List Expr) (typeArgs : List Ty)
    (line : Nat) (h : Alike b x s s')
    (hcallee : ∀ {t t' : State}, Alike b x t t' →
      Agree b t t' (readCallee t func) (readCallee t' func.unlined) (SameCallee b))
    (hargs : ∀ {t t' : State}, Alike b x t t' →
      Agree b t t' (readExprs args) (readExprs (unlinedAll args)) SameShapes) :
    Agree b s s' (readExpr (.call func args typeArgs line))
      (readExpr (Expr.call func args typeArgs line).unlined) SameShape := by
  rw [Expr.unlined, readExpr_call, readExpr_call]
  refine .after_mute h (mute_setLine line) (mute_setLine 0) fun s s' _ _ h => .get ?_
  rw [typeOperand?_unlined, ← h.typeOperand? hb, isBuiltinCall_unlined, ← h.isBuiltinCall hb]
  cases s.typeOperand? func with
  | some ty =>
    refine .bind h (hargs h) fun t t' vs vs' ht _ _ hvs => .pure ht ?_
    simp only [SameShape, Value.shape, getLast_isEmpty hvs]
  | none =>
    cases isBuiltinCall s func with
    | some name =>
      refine .bind h (hargs h) fun t t' vs vs' ht _ _ hvs => .get (.pure ht ?_)
      refine shape_builtinValue hb ht name ?_ hvs
      cases args with
      | nil => rfl
      | cons e rest => exact (typeOperand?_unlined t' e).symm
    | none =>
      refine .bind h (hcallee h) fun t t' callee callee' ht _ _ hsame => ?_
      refine .bind ht (hargs ht) fun u u' vs vs' hu hgrown hgrown' hvs => ?_
      refine .bind hu (.mute hu (mute_setLine line) (mute_setLine 0)
        (Q := fun _ _ _ _ => True) trivial) fun w w' _ _ hw hline hline' _ => ?_
      exact agree_finishCall hb hw
        (hsame.mono (hgrown.trans hline) (hgrown'.trans hline')) typeArgs hvs

mutual

theorem agree_readExpr (hb : Ground b) (e : Expr) (hclear : ∀ p ∈ exprParts e, x.Clear p)
    {s s' : State} (h : Alike b x s s') :
    Agree b s s' (readExpr e) (readExpr e.unlined) SameShape := by
  cases e with
  | ident name =>
    rw [Expr.unlined, readExpr]
    exact agree_readIdent hb h ((hclear (.ident name) (by simp [exprParts])).mention name rfl)
  | selector operand name =>
    rw [exprParts] at hclear
    obtain ⟨hhere, hinner⟩ := List.forall_mem_cons.mp hclear
    rw [Expr.unlined, readExpr, readExpr]
    refine .get ?_
    rw [qualifier?_unlined, ← h.qualifier? hb, typeOperand?_unlined, ← h.typeOperand? hb]
    cases hqualifier : s.qualifier? operand with
    | some found =>
      exact agree_readQualified hb h (imports_of_qualifier? hqualifier) (hhere.selection name rfl).2
    | none =>
      cases s.typeOperand? operand with
      | some ty => exact agree_readMethodOfType hb h ty name
      | none =>
        exact .bind h (agree_readExpr hb operand hinner h) fun t t' v v' ht _ _ hv =>
          agree_readMember hb ht _ _ hv name
  | call func args typeArgs line =>
    rw [exprParts] at hclear
    obtain ⟨_, hinner⟩ := List.forall_mem_cons.mp hclear
    obtain ⟨hinfunc, hinargs⟩ := List.forall_mem_append.mp hinner
    exact agree_call hb func args typeArgs line h
      (fun h => agree_readCallee hb func hinfunc h (agree_readExpr hb func hinfunc h))
      (fun h => agree_readExprs hb args hinargs h)
  | composite ty pointer elems =>
    rw [exprParts] at hclear
    obtain ⟨_, hinner⟩ := List.forall_mem_cons.mp hclear
    rw [Expr.unlined, readExpr, readExpr]
    refine agree_after_checkType h ty fun s s' h => ?_
    refine .bind h (agree_allocate h ty) fun t t' id id' ht _ _ hid => ?_
    obtain rfl : id = id' := hid
    exact .bind ht (agree_readElems hb ty id 0 elems hinner ht)
      fun u u' _ _ hu _ _ _ => .pure hu rfl
  | new ty =>
    rw [Expr.unlined, readExpr]
    refine agree_after_checkType h ty fun s s' h => ?_
    refine .bind h (agree_allocate h ty) fun t t' id id' ht _ _ hid => ?_
    obtain rfl : id = id' := hid
    exact .pure ht rfl
  | funcLit index =>
    rw [Expr.unlined, readExpr]
    refine .get ?_
    rw [h.closure?]
    split
    · rename_i id hid
      exact agree_funcValue h (h.same_closure? hb hid)
    · exact .pure h rfl
  | assert operand ty =>
    rw [exprParts] at hclear
    obtain ⟨_, hinner⟩ := List.forall_mem_cons.mp hclear
    rw [Expr.unlined, readExpr, readExpr]
    refine agree_after_checkType h ty fun s s' h => ?_
    refine .bind h (agree_readExpr hb operand hinner h) fun t t' v v' ht _ _ hv => .pure ht ?_
    simp only [SameShape, Value.shape, Value.isEmpty_eq hv]
  | convert ty operand =>
    rw [exprParts] at hclear
    obtain ⟨_, hinner⟩ := List.forall_mem_cons.mp hclear
    rw [Expr.unlined, readExpr, readExpr]
    refine agree_after_checkType h ty fun s s' h => ?_
    refine .bind h (agree_readExpr hb operand hinner h) fun t t' v v' ht _ _ hv => .pure ht ?_
    simp only [SameShape, Value.shape, Value.isEmpty_eq hv]
  | index base subscript asType =>
    rw [exprParts] at hclear
    obtain ⟨_, hinner⟩ := List.forall_mem_cons.mp hclear
    obtain ⟨hinbase, hinsubscript⟩ := List.forall_mem_append.mp hinner
    rw [Expr.unlined, readExpr, readExpr]
    refine .bind h (agree_readExpr hb base hinbase h) fun t t' v v' ht _ _ hv => ?_
    refine .bind ht (agree_readExpr hb subscript hinsubscript ht)
      fun u u' _ _ hu _ _ _ => .pure hu ?_
    simp only [SameShape, Value.shape, Value.ty_eq hv]
  | unary op operand =>
    rw [exprParts] at hclear
    obtain ⟨_, hinner⟩ := List.forall_mem_cons.mp hclear
    rw [Expr.unlined, readExpr, readExpr]
    exact .bind h (agree_readExpr hb operand hinner h) fun t t' v v' ht _ _ hv =>
      .pure ht (shape_signedValue op hv)
  | lit ty =>
    rw [Expr.unlined, readExpr]
    exact .pure h rfl
  | type ty =>
    rw [Expr.unlined, readExpr]
    exact agree_after_checkType h ty fun s s' h => .pure h rfl
  | other items =>
    rw [exprParts] at hclear
    obtain ⟨_, hinner⟩ := List.forall_mem_cons.mp hclear
    rw [Expr.unlined, readExpr, readExpr]
    exact .bind h (agree_readExprs hb items hinner h) fun t t' _ _ ht _ _ _ => .pure ht rfl

/-- What is called agrees. An expression with no rule of its own as a callee is read as a value,
which is why reading it is taken for granted here. -/
theorem agree_readCallee (hb : Ground b) (func : Expr) (hinfunc : ∀ p ∈ exprParts func, x.Clear p)
    {s s' : State} (h : Alike b x s s')
    (hfunc : Agree b s s' (readExpr func) (readExpr func.unlined) SameShape) :
    Agree b s s' (readCallee s func) (readCallee s' func.unlined) (SameCallee b) := by
  cases func with
  | ident name =>
    rw [Expr.unlined, readCallee, readCallee, readCalleeOr, readCalleeOr, h.isLocal hb, h.ownFunc?]
    split
    · rename_i id hid
      split at hid
      · cases hid
      · exact .pure h (.function (h.same_ownFunc? hb hid) [])
    · have hname := (hinfunc (.ident name) (by simp [exprParts])).mention name rfl
      exact .bind h (agree_readIdent hb h hname) fun t t' v v' ht _ _ hv =>
        .pure ht (sameCallee_dynamicCallee h.decls_eq hv)
  | selector operand name =>
    rw [exprParts] at hinfunc
    obtain ⟨hhere, hinoperand⟩ := List.forall_mem_cons.mp hinfunc
    rw [Expr.unlined, readCallee, readCallee, readCalleeOr, readCalleeOr, qualifier?_unlined,
      ← h.qualifier? hb, typeOperand?_unlined, ← h.typeOperand? hb]
    cases hqualifier : s.qualifier? operand with
    | some found =>
      exact agree_qualifiedCallee hb h (imports_of_qualifier? hqualifier) (hhere.selection name rfl)
    | none =>
      cases s.typeOperand? operand with
      | some ty => exact agree_methodOfTypeCallee hb h ty name
      | none =>
        exact .bind h (agree_readExpr hb operand hinoperand h) fun t t' v v' ht _ _ hv =>
          agree_memberCallee hb ht _ _ hv name
  | funcLit index =>
    rw [Expr.unlined, readCallee, readCallee, readCalleeOr, readCalleeOr, h.closure?]
    split
    · rename_i id hid
      exact .pure h (.function (h.same_closure? hb hid) [])
    · exact .pure h .unresolved
  | index base subscript asType =>
    rw [exprParts] at hinfunc
    obtain ⟨_, hinner⟩ := List.forall_mem_cons.mp hinfunc
    obtain ⟨hinbase, hinsubscript⟩ := List.forall_mem_append.mp hinner
    rw [Expr.unlined, readCallee, readCallee, readCalleeOr, readCalleeOr, genericBase?_unlined,
      h.genericBase? hb]
    split
    · rename_i id hid
      exact .pure h (.function (h.same_genericBase? hid) [asType])
    · refine .bind h (agree_readExpr hb base hinbase h) fun t t' v v' ht _ _ hv => ?_
      refine .bind ht (agree_readExpr hb subscript hinsubscript ht) fun u u' _ _ hu _ _ _ =>
        .pure hu (sameCallee_dynamicCallee h.decls_eq ?_)
      simp only [Value.shape, Value.ty_eq hv]
  | _ =>
    rw [Expr.unlined] at hfunc ⊢
    exact .bind h hfunc fun t t' v v' ht _ _ hv => .pure ht (sameCallee_dynamicCallee h.decls_eq hv)

theorem agree_readExprs (hb : Ground b) (es : List Expr) (hclear : ∀ p ∈ exprsParts es, x.Clear p)
    {s s' : State} (h : Alike b x s s') :
    Agree b s s' (readExprs es) (readExprs (unlinedAll es)) SameShapes := by
  cases es with
  | nil =>
    rw [unlinedAll, readExprs]
    exact .pure h rfl
  | cons e rest =>
    rw [exprsParts] at hclear
    obtain ⟨hfirst, hrest⟩ := List.forall_mem_append.mp hclear
    rw [unlinedAll, readExprs, readExprs]
    refine .bind h (agree_readExpr hb e hfirst h) fun t t' v v' ht _ _ hv => ?_
    refine .bind ht (agree_readExprs hb rest hrest ht) fun u u' vs vs' hu _ _ hvs => .pure hu ?_
    show v.shape :: vs.map Value.shape = v'.shape :: vs'.map Value.shape
    rw [show v.shape = v'.shape from hv, show vs.map Value.shape = vs'.map Value.shape from hvs]

theorem agree_readElems (hb : Ground b) (ty : Ty) (owner : Option TypeId) (i : Nat)
    (elems : List Elem) (hclear : ∀ p ∈ elemsParts elems, x.Clear p) {s s' : State}
    (h : Alike b x s s') :
    Agree b s s' (readElems ty owner i elems) (readElems ty owner i (unlinedElems elems))
      fun _ _ _ _ => True := by
  cases elems with
  | nil =>
    rw [unlinedElems, readElems]
    exact .pure h trivial
  | cons elem rest =>
    obtain ⟨key, value⟩ := elem
    rw [elemsParts] at hclear
    obtain ⟨hfirst, hrest⟩ := List.forall_mem_append.mp hclear
    rw [unlinedElems, readElems, readElems]
    refine .bind h (agree_readExpr hb value hfirst h) fun t t' v v' ht _ _ _ => ?_
    refine .after_mute ht (mute_flowIntoField _ _ _ _ _) (mute_flowIntoField _ _ _ _ _)
      fun u u' _ _ hu => ?_
    exact agree_readElems hb ty owner (i + 1) rest hrest hu

end

end CallAtlas.Resolve
