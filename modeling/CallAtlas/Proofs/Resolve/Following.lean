import CallAtlas.Proofs.Resolve.Congruence

/-!
# Reading statements from states that are alike

A statement changes the view of a state: it declares variables. What it declares is decided by the
types of the values in it, so from states with one view it leads to one view, on whatever lines it
stands, and its effects are the same. In an initializer it is a variable of the package that is
declared, and its first known type stays (`View.declare`).

Main statement: `follow_readStmts`.
-/

set_option autoImplicit false

namespace CallAtlas.Resolve

open Outline (Expr Stmt Clause exprsParts stmtParts stmtsParts clausesParts unlinedAll unlinedStmts
  unlinedClauses)

variable {b : Program} {x : Hidden} {s s' t t' : State}

/-! ## Declaring variables -/

/-- The view after a variable of the package has been declared. -/
def View.declareGlobal (v : View) (name : String) (ty : Ty) : View :=
  { v with globals := fun key =>
      if key = (v.pkg, name) then
        let old := (v.globals key).getD .unknown
        some (if old.isUnknown then ty else old)
      else v.globals key }

/-- The view after a local variable has been declared. -/
def View.declareLocal (v : View) (name : String) (ty : Ty) : View :=
  let old := (v.scope.vars.get? name).getD .unknown
  let changed := !old.isUnknown && !ty.isUnknown && old != ty
  { v with scope := { v.scope with
      vars := v.scope.vars.insert name (if old.isUnknown || changed then ty else old)
      redeclared := if changed then v.scope.redeclared ++ [name] else v.scope.redeclared } }

/-- The view after a variable has been declared. -/
def View.declare (v : View) (name : String) (ty : Ty) : View :=
  if name == "_" then v
  else if v.isInitializer then v.declareGlobal name ty
  else v.declareLocal name ty

/-- The view after variables have been declared one after the other. -/
def View.declareAll (v : View) (declared : Option Ty) (vars : List (String × Ty)) : View :=
  vars.foldl (fun v var => v.declare var.1 (declared.getD var.2)) v

theorem core_of_quiet (h : t.quiet = s.quiet) : t.core = s.core := by
  show t.quiet.core = s.quiet.core
  rw [h]

theorem view_core_declare (name : String) (ty : Ty) (origin : Origin) (s : State) :
    ((declare name ty origin).after s).view = s.view.declare name ty ∧
      ((declare name ty origin).after s).core = s.core := by
  -- behind the declaration the value flows into the variable
  have hflow : ∀ {t : State} {sink : Slot} {v : View}, t.view = v → t.core = s.core →
      ((addFlow origin sink).after t).view = v ∧ ((addFlow origin sink).after t).core = s.core := by
    intro t sink v hview hcore
    exact ⟨(view_of_quiet (mute_addFlow _ _ t)).trans hview,
      (core_of_quiet (mute_addFlow _ _ t)).trans hcore⟩
  unfold declare View.declare
  split
  · exact ⟨rfl, rfl⟩
  · rw [M.after, run_get_bind]
    cases hinit : s.frame.isInitializer with
    | true =>
      rw [if_pos rfl, if_pos (show s.view.isInitializer = true from hinit)]
      refine hflow ?_ rfl
      show View.mk (Table.get? _) _ _ _ _ _ _ = View.mk _ _ _ _ _ _ _
      congr 1
      funext key
      by_cases hkey : key = (s.frame.pkg, name)
      · subst hkey
        exact Table.get?_insert_self.trans (if_pos rfl).symm
      · exact (Table.get?_insert_of_ne hkey).trans (if_neg hkey).symm
    | false =>
      rw [if_neg (by decide), if_neg (by rw [show s.view.isInitializer = false from hinit]; decide)]
      exact hflow rfl rfl

theorem view_core_declareAll (declared : Option Ty)
    (vars : List (String × (Ty × Origin))) (s : State) : ((declareAll declared vars).after s).view =
        s.view.declareAll declared (vars.map fun var => (var.1, var.2.1)) ∧
      ((declareAll declared vars).after s).core = s.core := by
  induction vars generalizing s with
  | nil => exact ⟨rfl, rfl⟩
  | cons var rest ih =>
    obtain ⟨name, ty, origin⟩ := var
    obtain ⟨hview, hcore⟩ := view_core_declare name (declared.getD ty) origin s
    obtain ⟨hview', hcore'⟩ := ih ((declare name (declared.getD ty) origin).after s)
    refine ⟨hview'.trans ?_, hcore'.trans hcore⟩
    rw [hview]
    rfl

theorem follow_declare (h : Alike b {} s s') (name : String) (ty : Ty) (origin origin' : Origin) :
    Follow b s s' (declare name ty origin) (declare name ty origin') fun _ _ => True := by
  obtain ⟨hview, hcore⟩ := view_core_declare name ty origin s
  obtain ⟨hview', hcore'⟩ := view_core_declare name ty origin' s'
  exact .of_core h hcore hcore' (by rw [hview, hview', h.view_eq]) trivial

theorem follow_declareAll (h : Alike b {} s s') (declared : Option Ty)
    {vars vars' : List (String × (Ty × Origin))}
    (hvars : (vars.map fun var => (var.1, var.2.1)) = vars'.map fun var => (var.1, var.2.1)) :
    Follow b s s' (declareAll declared vars) (declareAll declared vars') fun _ _ => True := by
  obtain ⟨hview, hcore⟩ := view_core_declareAll declared vars s
  obtain ⟨hview', hcore'⟩ := view_core_declareAll declared vars' s'
  exact .of_core h hcore hcore' (by rw [hview, hview', h.view_eq, hvars]) trivial

theorem follow_modifyScope (h : Alike b {} s s') (f : Scope → Scope) :
    Follow b s s' (modifyScope f) (modifyScope f) fun _ _ => True := by
  refine .of_core h rfl rfl ?_ trivial
  show ({ s.view with scope := f s.view.scope } : View) = { s'.view with scope := f s'.view.scope }
  rw [h.view_eq]

theorem follow_bindVar (h : Alike b {} s s') (name : String) (ty : Ty) :
    Follow b s s' (bindVar name ty) (bindVar name ty) Eq := by
  refine .bind (R := fun t t' => t.frame.scope = t'.frame.scope) ?_ fun t t' s s' hts hscope => ?_
  · exact Agree.follow h (.get (.pure h h.scope_eq)) fun _ _ _ _ hscope => hscope
  · exact .bind (follow_modifyScope hts _) fun u u' _ _ hu _ => .pure hu (by rw [hscope])

/-! ## Values -/

/-- The types that are assigned, from the shapes of the values. -/
def spreadTypes (count : Nat) : List (Ty × Bool × List Ty) → List Ty
  | [shape] =>
    if 1 < count then if 1 < shape.2.2.length then shape.2.2 else [shape.1, .basic "bool"]
    else [shape.1]
  | shapes => shapes.map Prod.fst

theorem types_spread (count : Nat) (vs : List Value) :
    (spread count vs).map Prod.fst = spreadTypes count (vs.map Value.shape) := by
  rcases vs with _ | ⟨v, _ | ⟨w, rest⟩⟩
  · rfl
  · simp only [spread, spreadTypes, List.map_cons, List.map_nil, Value.shape, List.length_map]
    split
    · split <;> rfl
    · rfl
  · simp only [spread, spreadTypes, List.map_cons, List.map_map, Value.shape]
    rfl

/-- The types that are assigned are the same. -/
def SameTypes (_ _ : State) (found found' : List (Ty × Origin)) : Prop :=
  found.map Prod.fst = found'.map Prod.fst

theorem agree_readValues (hb : Ground b) (h : Alike b x s s') (values : List Expr)
    (hclear : ∀ p ∈ exprsParts values, x.Clear p) (count : Nat) :
    Agree b s s' (readValues values count) (readValues (unlinedAll values) count) SameTypes := by
  rw [readValues, readValues]
  refine .bind h (agree_readExprs hb values hclear h) fun t t' vs vs' ht _ _ hvs => .pure ht ?_
  have htypes : (spread count vs).map Prod.fst = (spread count vs').map Prod.fst := by
    rw [types_spread, types_spread, show vs.map Value.shape = vs'.map Value.shape from hvs]
  have hlength := congrArg List.length htypes
  rw [List.length_map, List.length_map] at hlength
  unfold SameTypes
  rw [List.map_append, List.map_append, htypes, hlength]

/-- Names take the types that are assigned to them in order. -/
theorem zip_types (names : List String) (found : List (Ty × Origin)) :
    ((names.zip found).map fun var => (var.1, var.2.1)) = names.zip (found.map Prod.fst) := by
  rw [← List.map_id names, List.zip_map, List.map_id]
  rfl

/-! ## Assignments -/

theorem agree_sink (hb : Ground b) (h : Alike b x s s') (target : Expr)
    (hclear : ∀ p ∈ Outline.exprParts target, x.Clear p) :
    Agree b s s' (sink target) (sink target.unlined) fun _ _ _ _ => True := by
  cases target with
  | ident name =>
    rw [Expr.unlined]
    refine .get ?_
    dsimp only
    rw [h.localVar? hb, h.isOwnMember]
    split
    · exact .pure h trivial
    · split <;> exact .pure h trivial
  | selector operand name =>
    rw [Outline.exprParts] at hclear
    obtain ⟨_, hinner⟩ := List.forall_mem_cons.mp hclear
    have hqualifier : s'.qualifier? operand.unlined = s.qualifier? operand := by
      rw [qualifier?_unlined, h.qualifier? hb]
    rw [Expr.unlined]
    refine .get ?_
    dsimp only
    rw [hqualifier]
    cases s.qualifier? operand with
    | some found => exact .pure h trivial
    | none =>
      exact .bind h (agree_readExpr hb operand hinner h) fun t t' v v' ht _ _ _ =>
        .mute ht (mute_fieldSlot _ _ _) (mute_fieldSlot _ _ _) trivial
  | _ =>
    have hread := agree_readExpr hb _ hclear h
    rw [Expr.unlined] at hread ⊢
    exact .get (.bind h hread fun t t' _ _ ht _ _ _ => .pure ht trivial)

theorem agree_assignAll (hb : Ground b) (h : Alike b x s s') (targets : List Expr)
    (hclear : ∀ p ∈ exprsParts targets, x.Clear p) (found found' : List (Ty × Origin))
    (hlength : found.length = found'.length) :
    Agree b s s' (assignAll (targets.zip found)) (assignAll ((unlinedAll targets).zip found'))
      fun _ _ _ _ => True := by
  induction targets generalizing found found' s s' with
  | nil => exact .pure h trivial
  | cons target rest ih =>
    rw [exprsParts] at hclear
    obtain ⟨hfirst, hrest⟩ := List.forall_mem_append.mp hclear
    cases found with
    | nil =>
      obtain rfl : found' = [] := List.length_eq_zero_iff.mp hlength.symm
      exact .pure h trivial
    | cons value more =>
      cases found' with
      | nil => cases hlength
      | cons value' more' =>
        rw [unlinedAll, List.zip_cons_cons, List.zip_cons_cons, assignAll_cons, assignAll_cons]
        refine .bind h (R := fun _ _ _ _ => True) ?_ fun t t' _ _ ht _ _ _ =>
          ih ht hrest more more' (Nat.succ.inj hlength)
        exact .bind h (agree_sink hb h target hfirst) fun t t' slot slot' ht _ _ _ =>
          .mute ht (mute_flowTo _ _) (mute_flowTo _ _) trivial

theorem rangeAll_assign (name : String) (rest : List String) (types : List Ty) :
    rangeAll false (name :: rest) types =
      (sink (.ident name) >>= flowTo .unseen) >>= fun _ => rangeAll false rest types.tail := by
  rw [rangeAll, if_neg (by decide), bind_assoc]

theorem follow_rangeAll (hb : Ground b) (h : Alike b {} s s') (define : Bool) (names : List String)
    (types : List Ty) :
    Follow b s s' (rangeAll define names types) (rangeAll define names types) fun _ _ => True := by
  induction names generalizing types s s' with
  | nil => exact .pure h trivial
  | cons name rest ih =>
    cases define with
    | true => exact .bind (follow_declare h name _ _ _) fun t t' _ _ ht _ => ih ht _
    | false =>
      have hclear : ∀ p ∈ Outline.exprParts (.ident name), Hidden.Clear {} p := by
        intro p hp
        rw [Outline.exprParts, List.mem_singleton] at hp
        rw [hp]
        exact ⟨fun _ _ => List.not_mem_nil, fun _ hselection => by cases hselection⟩
      rw [rangeAll_assign]
      refine .bind (R := fun _ _ => True) ?_ fun t t' _ _ ht _ => ih ht _
      refine Agree.follow h (R := fun _ _ _ _ => True) ?_ fun _ _ _ _ _ => trivial
      exact .bind h (agree_sink hb h (.ident name) hclear) fun t t' slot slot' ht _ _ _ =>
        .mute ht (mute_flowTo _ _) (mute_flowTo _ _) trivial

/-! ## Type switches -/

theorem follow_declareSwitched (h : Alike b {} s s') (binding : Option String) (v v' : Value) :
    Follow b s s' (declareSwitched binding v) (declareSwitched binding v') fun _ _ => True := by
  cases binding with
  | some name => exact follow_declare h name _ _ _
  | none => exact .pure h trivial

theorem follow_openClause (h : Alike b {} s s') (binding : Option String) (ty : Ty)
    (types : List Ty) :
    Follow b s s' (openClause binding ty types) (openClause binding ty types) Eq := by
  refine .bind (.mute h (reports_checkTypes types).mute (reports_checkTypes types).mute)
    fun t t' _ _ ht _ => ?_
  cases binding with
  | some name => exact follow_bindVar ht name _
  | none => exact .pure ht rfl

theorem follow_closeClause (h : Alike b {} s s') (binding : Option String) (old : Option Ty) :
    Follow b s s' (closeClause binding old) (closeClause binding old) fun _ _ => True := by
  cases binding with
  | none => exact .pure h trivial
  | some name =>
    cases old with
    | none => exact .pure h trivial
    | some ty => exact .bind (follow_bindVar h name ty) fun t t' _ _ ht _ => .pure ht trivial

/-! ## Statements -/

theorem Alike.resultTypes_eq (h : Alike b x s s') :
    (s.program.functions[s.frame.id]?).map Function.resultTypes =
      (s'.program.functions[s'.frame.id]?).map Function.resultTypes := by
  rw [← h.id_eq, Option.map_eq_bind, Option.map_eq_bind]
  exact h.bind_function h.left.current fun _ => rfl

mutual

theorem follow_readStmt (hb : Ground b) (stmt : Stmt)
    (hclear : ∀ p ∈ stmtParts stmt, Hidden.Clear {} p) {s s' : State} (h : Alike b {} s s') :
    Follow b s s' (readStmt stmt) (readStmt stmt.unlined) fun _ _ => True := by
  cases stmt with
  | define names values =>
    rw [stmtParts] at hclear
    rw [Stmt.unlined, readStmt, readStmt]
    refine .bind (Agree.follow h (agree_readValues hb h values hclear _)
      fun _ _ _ _ hfound => hfound) fun t t' found found' ht hfound =>
      follow_declareAll ht none (by rw [zip_types, zip_types, hfound])
  | var names ty values =>
    rw [stmtParts] at hclear
    rw [Stmt.unlined, readStmt, readStmt]
    refine .bind (.mute h (reports_checkTypes _).mute (reports_checkTypes _).mute)
      fun t t' _ _ h _ => ?_
    refine .bind (Agree.follow h (agree_readValues hb h values hclear _)
      fun _ _ _ _ hfound => hfound) fun t t' found found' ht hfound =>
      follow_declareAll ht ty (by rw [zip_types, zip_types, hfound])
  | assign targets values =>
    rw [stmtParts] at hclear
    obtain ⟨hintargets, hinvalues⟩ := List.forall_mem_append.mp hclear
    rw [Stmt.unlined, readStmt, readStmt, Outline.length_unlinedAll]
    refine .bind (Agree.follow h (agree_readValues hb h values hinvalues _)
      fun _ _ _ _ hfound => hfound) fun t t' found found' ht hfound => ?_
    have hlength := congrArg List.length hfound
    rw [List.length_map, List.length_map] at hlength
    exact Agree.follow ht (agree_assignAll hb ht targets hintargets found found' hlength)
      fun _ _ _ _ _ => trivial
  | range names define e =>
    rw [stmtParts] at hclear
    rw [Stmt.unlined, readStmt, readStmt]
    refine .bind (Agree.follow h (agree_readExpr hb e hclear h) fun _ _ _ _ hv => hv)
      fun t t' v v' ht hv => ?_
    rw [Value.ty_eq hv]
    exact follow_rangeAll hb ht define names _
  | typeSwitch binding e clauses =>
    rw [stmtParts] at hclear
    obtain ⟨hinvalue, hinclauses⟩ := List.forall_mem_append.mp hclear
    rw [Stmt.unlined, readStmt, readStmt]
    refine .bind (Agree.follow h (agree_readExpr hb e hinvalue h) fun _ _ _ _ hv => hv)
      fun t t' v v' ht hv => ?_
    refine .bind (follow_declareSwitched ht _ v v') fun u u' _ _ hu _ => ?_
    rw [Value.ty_eq hv]
    exact follow_readClauses hb _ _ clauses hinclauses hu
  | localTypes names =>
    rw [Stmt.unlined, readStmt]
    exact follow_modifyScope h _
  | ret values =>
    rw [stmtParts] at hclear
    rw [Stmt.unlined, readStmt, readStmt]
    refine Agree.follow h (R := fun _ _ _ _ => True) (.get ?_) fun _ _ _ _ _ => trivial
    rw [h.resultTypes_eq]
    exact .bind h (agree_readValues hb h values hclear _) fun t t' found found' ht _ _ _ =>
      .mute ht (mute_returnAll _ _) (mute_returnAll _ _) trivial
  | expr e =>
    rw [stmtParts] at hclear
    rw [Stmt.unlined, readStmt, readStmt]
    exact .bind (Agree.follow h (agree_readExpr hb e hclear h) fun _ _ _ _ hv => hv)
      fun t t' _ _ ht _ => .pure ht trivial

theorem follow_readStmts (hb : Ground b) (stmts : List Stmt)
    (hclear : ∀ p ∈ stmtsParts stmts, Hidden.Clear {} p) {s s' : State} (h : Alike b {} s s') :
    Follow b s s' (readStmts stmts) (readStmts (unlinedStmts stmts)) fun _ _ => True := by
  cases stmts with
  | nil =>
    rw [unlinedStmts, readStmts]
    exact .pure h trivial
  | cons stmt rest =>
    rw [stmtsParts] at hclear
    obtain ⟨hfirst, hrest⟩ := List.forall_mem_append.mp hclear
    rw [unlinedStmts, readStmts, readStmts]
    exact .bind (follow_readStmt hb stmt hfirst h) fun t t' _ _ ht _ =>
      follow_readStmts hb rest hrest ht

theorem follow_readClauses (hb : Ground b) (binding : Option String) (ty : Ty)
    (clauses : List Clause) (hclear : ∀ p ∈ clausesParts clauses, Hidden.Clear {} p) {s s' : State}
    (h : Alike b {} s s') :
    Follow b s s' (readClauses binding ty clauses) (readClauses binding ty (unlinedClauses clauses))
      fun _ _ => True := by
  cases clauses with
  | nil =>
    rw [unlinedClauses, readClauses]
    exact .pure h trivial
  | cons clause rest =>
    obtain ⟨types, body⟩ := clause
    rw [clausesParts] at hclear
    obtain ⟨hinbody, hrest⟩ := List.forall_mem_append.mp hclear
    rw [unlinedClauses, readClauses, readClauses, readClause, readClause]
    refine .bind (R := fun _ _ => True) ?_ fun t t' _ _ ht _ =>
      follow_readClauses hb binding ty rest hrest ht
    refine .bind (follow_openClause h binding ty types) fun t t' old old' ht hold => ?_
    obtain rfl : old = old' := hold
    exact .bind (follow_readStmts hb body hinbody ht) fun u u' _ _ hu _ =>
      follow_closeClause hu binding old

end

end CallAtlas.Resolve
