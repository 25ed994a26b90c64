import CallAtlas.Proofs.Resolve.Parts

/-!
# The calls that are met while a body is read

What becomes of a call depends on the state in which it is met: the same words are a conversion
where the name is that of a type, and a call where it is that of a function. So the calls of a body
are listed with the states in which the reader meets them (`stmtsSights`). A call is met when its
line has been set; it is listed behind the calls in what it calls and in its arguments. The one
thing that the reader passes over is a subscript that gives type arguments, which is listed as such.

Two statements tie the list to the body and to the facts. `flatMap_calls_stmtsSights`: the calls in
the list, with those in the subscripts that were passed over, are the calls of the body in order.
`records_readStmts`: the sites that reading adds are those of the calls in the list, in order, where
`Sight.site?` says what a call contributes.
-/

set_option autoImplicit false

namespace CallAtlas

/-! ## The calls of an outline -/

namespace Outline

/-- A call as it stands in an expression. -/
structure Call where
  func : Expr
  args : List Expr
  typeArgs : List Ty
  line : Nat

mutual

/-- The calls in an expression: those in what is called, those in the arguments, and the call
itself. -/
def exprCalls : Expr → List Call
  | .ident _ | .new _ | .funcLit _ | .lit _ | .type _ => []
  | .selector e _ | .assert e _ | .convert _ e | .unary _ e => exprCalls e
  | .call func args typeArgs line =>
    exprCalls func ++ exprsCalls args ++ [⟨func, args, typeArgs, line⟩]
  | .composite _ _ elems => elemsCalls elems
  | .index base index _ => exprCalls base ++ exprCalls index
  | .other items => exprsCalls items

def exprsCalls : List Expr → List Call
  | [] => []
  | e :: rest => exprCalls e ++ exprsCalls rest

def elemsCalls : List Elem → List Call
  | [] => []
  | .mk _ value :: rest => exprCalls value ++ elemsCalls rest

end

mutual

/-- The calls in a statement; the values of an assignment come before its targets. -/
def stmtCalls : Stmt → List Call
  | .define _ values | .var _ _ values | .ret values => exprsCalls values
  | .assign targets values => exprsCalls values ++ exprsCalls targets
  | .range _ _ e | .expr e => exprCalls e
  | .typeSwitch _ e clauses => exprCalls e ++ clausesCalls clauses
  | .localTypes _ => []

def stmtsCalls : List Stmt → List Call
  | [] => []
  | s :: rest => stmtCalls s ++ stmtsCalls rest

def clausesCalls : List Clause → List Call
  | [] => []
  | .mk _ body :: rest => stmtsCalls body ++ clausesCalls rest

end

end Outline

namespace Resolve

open Outline (Expr Elem Stmt Clause Call exprCalls exprsCalls elemsCalls stmtCalls
  stmtsCalls clausesCalls)

variable {s : State}

/-! ## Sights -/

/-- What stands in front of a subscript takes type arguments: it is a type or a generic function. -/
def State.TakesTypes (s : State) (base : Expr) : Prop :=
  (s.typeOperand? base).isSome ∨ (genericBase? s base).isSome

/-- What the reader meets: a call, or a subscript that gives type arguments to what stands
in front of it. -/
inductive Sight where
  | call (s : State) (c : Call)
  | typeArg (s : State) (base subscript : Expr) (h : s.TakesTypes base)

/-- The call is a conversion: what is called stands for a type. -/
abbrev State.Converts (s : State) (c : Call) : Prop := (s.typeOperand? c.func).isSome

/-- What is called is a predeclared function. -/
abbrev State.CallsBuiltin (s : State) (c : Call) : Prop := (isBuiltinCall s c.func).isSome

/-- The state in which the arguments of a call are read. -/
def State.atArgs (s : State) (c : Call) : State :=
  if s.Converts c ∨ s.CallsBuiltin c then s else (readCallee s c.func).after s

/-- The values of the arguments of a call. -/
def State.argValues (s : State) (c : Call) : List Value := (readExprs c.args).answer (s.atArgs c)

/-- The site of a call of `callee`, whose arguments have been read. -/
def siteOf? (callee : Callee) (typeArgs : List Ty) (args : List Value) (line : Nat) (s : State) :
    Option CallSite :=
  let instanceOf (id : FuncId) (typeArgs : List Ty) : FuncId :=
    (instantiate id typeArgs (args.map Value.ty)).answer s
  let origins := args.map Value.origin
  match callee with
  | .unresolved => none
  | .function id own =>
    let target := instanceOf id (if own.isEmpty then typeArgs else own)
    some { line, target := .static target, args := origins }
  | .method id recv =>
    let target := if s.isWithinReceiver id then id else instanceOf id []
    some { line, target := .static target, recv := some recv, args := origins }
  | .invoke iface method recv =>
    some { line, target := .invoke iface method, recv := some recv, args := origins }
  | .dynamic origin _ => some { line, target := .dynamic origin, args := origins }

/-- The site that a call contributes, if it is a call of something that is known. -/
def Sight.site? : Sight → Option CallSite
  | .typeArg _ _ _ _ => none
  | .call s c =>
    if s.Converts c ∨ s.CallsBuiltin c then none
    else
      siteOf? ((readCallee s c.func).answer s) c.typeArgs (s.argValues c) c.line
        ((setLine c.line).after ((readExprs c.args).after (s.atArgs c)))

/-- The calls that are listed with a sight. -/
def Sight.calls : Sight → List Call
  | .call _ c => [c]
  | .typeArg _ _ subscript _ => exprCalls subscript

/-- The subscripts of an expression that stands for a type. -/
def typeSights (s : State) : (e : Expr) → (s.typeOperand? e).isSome → List Sight
  | .unary .deref inner, h => typeSights s inner (by simpa [State.typeOperand?] using h)
  | .index base subscript _, h =>
    have hbase : (s.typeOperand? base).isSome := by simpa [State.typeOperand?] using h
    typeSights s base hbase ++ [.typeArg s base subscript (Or.inl hbase)]
  | _, _ => []

/-- What the reader meets in the expression that is called, where `read` is what it meets
if it reads it. -/
def calleeSights (s : State) (c : Call) (read : List Sight) : List Sight :=
  if h : s.Converts c then typeSights s c.func h
  else
    match c.func with
    | .index base subscript _ =>
      if h : (genericBase? s base).isSome then [.typeArg s base subscript (Or.inr h)] else read
    | _ => read

mutual

/-- What the reader meets in an expression that it reads from a state. -/
def exprSights : Expr → State → List Sight
  | .ident _, _ | .new _, _ | .funcLit _, _ | .lit _, _ | .type _, _ => []
  | .selector operand _, s =>
    if h : (s.typeOperand? operand).isSome then typeSights s operand h else exprSights operand s
  | .call func args typeArgs line, s =>
    let s := (setLine line).after s
    let c : Call := ⟨func, args, typeArgs, line⟩
    calleeSights s c (exprSights func s) ++ exprsSights args (s.atArgs c) ++ [.call s c]
  | .composite ty _ elems, s =>
    let s := (checkType ty).after s
    elemsSights ty ((allocate ty).answer s) 0 elems ((allocate ty).after s)
  | .assert operand ty, s | .convert ty operand, s => exprSights operand ((checkType ty).after s)
  | .unary _ operand, s => exprSights operand s
  | .index base index _, s => exprSights base s ++ exprSights index ((readExpr base).after s)
  | .other items, s => exprsSights items s

def exprsSights : List Expr → State → List Sight
  | [], _ => []
  | e :: rest, s => exprSights e s ++ exprsSights rest ((readExpr e).after s)

def elemsSights (ty : Ty) (owner : Option TypeId) (i : Nat) : List Elem → State → List Sight
  | [], _ => []
  | .mk key value :: rest, s =>
    exprSights value s ++
      elemsSights ty owner (i + 1) rest ((readExpr value >>= flowIntoField ty owner i key).after s)

end

/-- What is read of the target of an assignment. -/
def readPart : Expr → Expr
  | .selector operand _ => operand
  | other => other

/-- What the reader meets in the targets of an assignment. -/
def targetsSights : List (Expr × (Ty × Origin)) → State → List Sight
  | [], _ => []
  | (target, value) :: rest, s =>
    exprSights (readPart target) s ++ targetsSights rest ((sink target >>= flowTo value.2).after s)

mutual

/-- What the reader meets in a statement. -/
def stmtSights : Stmt → State → List Sight
  | .define _ values, s | .ret values, s => exprsSights values s
  | .var _ ty values, s => exprsSights values ((checkTypes ty.toList).after s)
  | .assign targets values, s =>
    let found := readValues values targets.length
    exprsSights values s ++ targetsSights (targets.zip (found.answer s)) (found.after s)
  | .range _ _ e, s | .expr e, s => exprSights e s
  | .typeSwitch binding e clauses, s =>
    let binding := Function.properName? binding
    let value := (readExpr e).answer s
    exprSights e s ++
      clausesSights binding value.ty clauses
        ((declareSwitched binding value).after ((readExpr e).after s))
  | .localTypes _, _ => []

def stmtsSights : List Stmt → State → List Sight
  | [], _ => []
  | stmt :: rest, s => stmtSights stmt s ++ stmtsSights rest ((readStmt stmt).after s)

def clausesSights (binding : Option String) (ty : Ty) : List Clause → State → List Sight
  | [], _ => []
  | .mk types body :: rest, s =>
    stmtsSights body ((openClause binding ty types).after s) ++
      clausesSights binding ty rest ((readClause binding ty (.mk types body)).after s)

end

/-! ## Every call is met once -/

/-- A type has calls in its subscripts only. -/
theorem flatMap_calls_typeSights (e : Expr) (h : (s.typeOperand? e).isSome) :
    (typeSights s e h).flatMap Sight.calls = exprCalls e := by
  fun_induction typeSights s e h with
  | case1 inner h ih => rw [exprCalls, ih]
  | case2 base subscript asType h hbase ih =>
    rw [List.flatMap_append, ih, exprCalls]
    simp [Sight.calls]
  | case3 e h hunary hindex =>
    cases e with
    | ident name => rw [exprCalls]; rfl
    | type ty => rw [exprCalls]; rfl
    | selector operand name =>
      cases operand with
      | ident qualifier => rw [exprCalls, exprCalls]; rfl
      | _ => simp [State.typeOperand?] at h
    | unary op inner =>
      cases op with
      | deref => exact (hunary inner h rfl HEq.rfl).elim
      | _ => simp [State.typeOperand?] at h
    | index base subscript asType => exact (hindex base subscript asType h rfl HEq.rfl).elim
    | _ => simp [State.typeOperand?] at h

/-- The name of a generic function holds no calls. -/
theorem exprCalls_of_genericBase? {base : Expr} (h : (genericBase? s base).isSome) :
    exprCalls base = [] := by
  cases base with
  | ident name => rw [exprCalls]
  | selector operand name =>
    cases operand with
    | ident qualifier => rw [exprCalls, exprCalls]
    | _ => simp [genericBase?] at h
  | _ => simp [genericBase?] at h

mutual

theorem flatMap_calls_exprSights (e : Expr) (s : State) :
    (exprSights e s).flatMap Sight.calls = exprCalls e := by
  cases e with
  | selector operand name =>
    rw [exprSights, exprCalls]
    split
    · exact flatMap_calls_typeSights operand ‹_›
    · exact flatMap_calls_exprSights operand s
  | call func args typeArgs line =>
    have hfunc := flatMap_calls_exprSights func
    rw [exprSights, exprCalls, List.flatMap_append, List.flatMap_append,
      flatMap_calls_exprsSights args _]
    congr 2
    unfold calleeSights
    split
    · exact flatMap_calls_typeSights func ‹_›
    · dsimp only
      split
      · split
        · rename_i hgeneric
          rw [exprCalls, exprCalls_of_genericBase? hgeneric]
          simp [Sight.calls]
        · exact hfunc _
      · exact hfunc _
  | composite ty pointer elems =>
    rw [exprSights, exprCalls]
    exact flatMap_calls_elemsSights _ _ _ elems _
  | assert operand ty => rw [exprSights, exprCalls, flatMap_calls_exprSights operand]
  | convert ty operand => rw [exprSights, exprCalls, flatMap_calls_exprSights operand]
  | unary op operand => rw [exprSights, exprCalls, flatMap_calls_exprSights operand]
  | index base index asType =>
    rw [exprSights, exprCalls, List.flatMap_append, flatMap_calls_exprSights base,
      flatMap_calls_exprSights index]
  | other items => rw [exprSights, exprCalls, flatMap_calls_exprsSights items]
  | _ => rw [exprSights, exprCalls, List.flatMap_nil]

theorem flatMap_calls_exprsSights (es : List Expr) (s : State) :
    (exprsSights es s).flatMap Sight.calls = exprsCalls es := by
  cases es with
  | nil => rw [exprsSights, exprsCalls, List.flatMap_nil]
  | cons e rest =>
    rw [exprsSights, exprsCalls, List.flatMap_append, flatMap_calls_exprSights e,
      flatMap_calls_exprsSights rest]

theorem flatMap_calls_elemsSights (ty : Ty) (owner : Option TypeId) (i : Nat) (elems : List Elem)
    (s : State) : (elemsSights ty owner i elems s).flatMap Sight.calls = elemsCalls elems := by
  cases elems with
  | nil => rw [elemsSights, elemsCalls, List.flatMap_nil]
  | cons elem rest =>
    obtain ⟨key, value⟩ := elem
    rw [elemsSights, elemsCalls, List.flatMap_append, flatMap_calls_exprSights value,
      flatMap_calls_elemsSights ty owner (i + 1) rest]

end

theorem exprCalls_readPart (target : Expr) : exprCalls (readPart target) = exprCalls target := by
  unfold readPart
  split
  · rw [exprCalls]
  · rfl

/-- Every target gets a value, so all of them are read. -/
theorem flatMap_calls_targetsSights (targets : List Expr) (values : List (Ty × Origin))
    (h : targets.length ≤ values.length) (s : State) :
    (targetsSights (targets.zip values) s).flatMap Sight.calls = exprsCalls targets := by
  induction targets generalizing values s with
  | nil => rw [List.zip_nil_left, targetsSights, exprsCalls, List.flatMap_nil]
  | cons target rest ih =>
    cases values with
    | nil => simp at h
    | cons value values =>
      rw [List.zip_cons_cons, targetsSights, exprsCalls, List.flatMap_append,
        ih values (Nat.le_of_succ_le_succ h), flatMap_calls_exprSights, exprCalls_readPart]

theorem le_length_readValues (values : List Expr) (count : Nat) (s : State) :
    count ≤ ((readValues values count).answer s).length := by
  have hpadded : ∀ spread : List (Ty × Origin),
      count ≤ (spread ++ List.replicate (count - spread.length)
          (Ty.unknown, Origin.unseen)).length := by
    intro spread
    rw [List.length_append, List.length_replicate]
    omega
  exact hpadded _

mutual

theorem flatMap_calls_stmtSights (stmt : Stmt) (s : State) :
    (stmtSights stmt s).flatMap Sight.calls = stmtCalls stmt := by
  cases stmt with
  | define names values => rw [stmtSights, stmtCalls, flatMap_calls_exprsSights]
  | var names ty values => rw [stmtSights, stmtCalls, flatMap_calls_exprsSights]
  | ret values => rw [stmtSights, stmtCalls, flatMap_calls_exprsSights]
  | assign targets values =>
    rw [stmtSights, stmtCalls, List.flatMap_append, flatMap_calls_exprsSights,
      flatMap_calls_targetsSights targets _ (le_length_readValues values _ s)]
  | range names define e => rw [stmtSights, stmtCalls, flatMap_calls_exprSights]
  | expr e => rw [stmtSights, stmtCalls, flatMap_calls_exprSights]
  | typeSwitch binding e clauses =>
    rw [stmtSights, stmtCalls, List.flatMap_append, flatMap_calls_exprSights,
      flatMap_calls_clausesSights _ _ clauses]
  | localTypes names => rw [stmtSights, stmtCalls, List.flatMap_nil]

/-- **Main statement**: the reader meets every call of the statements once and in order, apart from
those in the subscripts that it passes over. -/
theorem flatMap_calls_stmtsSights (stmts : List Stmt) (s : State) :
    (stmtsSights stmts s).flatMap Sight.calls = stmtsCalls stmts := by
  cases stmts with
  | nil => rw [stmtsSights, stmtsCalls, List.flatMap_nil]
  | cons stmt rest =>
    rw [stmtsSights, stmtsCalls, List.flatMap_append, flatMap_calls_stmtSights stmt,
      flatMap_calls_stmtsSights rest]

theorem flatMap_calls_clausesSights (binding : Option String) (ty : Ty) (clauses : List Clause)
    (s : State) : (clausesSights binding ty clauses s).flatMap Sight.calls =
      clausesCalls clauses := by
  cases clauses with
  | nil => rw [clausesSights, clausesCalls, List.flatMap_nil]
  | cons clause rest =>
    obtain ⟨types, body⟩ := clause
    rw [clausesSights, clausesCalls, List.flatMap_append, flatMap_calls_stmtsSights body,
      flatMap_calls_clausesSights binding ty rest]

end

end Resolve

end CallAtlas
