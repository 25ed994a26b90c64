import CallAtlas.Outline.Types

/-!
# From syntax trees to outlines

Expressions and statements are lowered inside a state that holds the function literals of the
current function. A literal is lowered with a state of its own and then takes the next number, so
literals are numbered in the order in which their lowering ends; the arguments of a call are lowered
before the function that is called.

Operands of `++` and `--`, keys of composite literals that are no names, bounds of slices and
lengths of arrays are dropped.
-/

set_option autoImplicit false

namespace CallAtlas.Outline

/-- The literals found so far in the current function. -/
abbrev Lowering := StateM (List Function)

/-- The type of a literal. -/
def literalTy : Source.Literal → Ty
  | .int | .iota => .basic "int"
  | .float => .basic "float64"
  | .imaginary => .basic "complex128"
  | .rune => .basic "rune"
  | .text => .basic "string"
  | .truth => .basic "bool"
  | .nothing => .unknown

/-- A type in the place of an argument. A constraint is only the list of its parts. -/
def typeArgument (c : Context) : Source.TypeExpr → Expr
  | .union a b => .other [typeArgument c a, typeArgument c b]
  | .negated t => .other [typeArgument c t]
  | t => .type (typeOf c t)

/-- An index read as a type. -/
def indexTy (c : Context) : Source.Expr → Ty
  | .ident n => c.nameTy n
  | .selector (.ident p) n => c.qualifiedTy p n
  | _ => .unknown

/-- The name that an expression declares; other expressions declare nothing. -/
def declaredName : Source.Expr → String
  | .ident n => n
  | _ => "_"

/-- The key of an element that names a field. -/
def keyName : Source.Expr → Option String
  | .ident n => some n
  | _ => none

/-- An expression that is evaluated on its own: names and literals do nothing. -/
def isEffective : Source.Expr → Bool
  | .ident _ | .literal _ => false
  | _ => true

/-- The type allocated by a call of `new` with these arguments. -/
def allocated (c : Context) : List Expr → Option Ty
  | .type t :: _ => some t
  | .ident n :: _ => some (c.nameTy n)
  | .selector (.ident p) n :: _ => some (c.qualifiedTy p n)
  | _ => none

/-- The types of a case; `nil` is no type. -/
def caseTy (c : Context) : Source.TypeExpr → Ty
  | .name "nil" => .unknown
  | t => typeOf c t

/-- The value of an element. -/
def Elem.value : Elem → Expr
  | .mk _ value => value

/-- The names of the types of a declaration. -/
def specName : Source.TypeSpec → String
  | .mk _ name _ _ _ => name

/-- Gives a function literal the next number. -/
def addClosure (closure : Function) : Lowering Expr := fun closures =>
  (.funcLit closures.length, closures ++ [closure])

mutual

/-- The outline of an expression. -/
def lowerExpr (c : Context) : Source.Expr → Lowering Expr
  | .ident n => pure (.ident n)
  | .literal kind => pure (.lit (literalTy kind))
  | .selector e n => do pure (.selector (← lowerExpr c e) n)
  | .index b i => do
    let base ← lowerExpr c b
    let index ← lowerExpr c i
    pure (.index base index (indexTy c i))
  | .slice e _ => lowerExpr c e
  | .call pos f types args => do
    let args ← lowerExprs c args
    let plain : Lowering Expr := do
      pure (.call (← lowerExpr c f) args (types.map (typeOf c)) pos.line)
    match f, allocated c args with
    | .ident "new", some ty => pure (.new ty)
    | _, _ => plain
  | .assert e t => do pure (.assert (← lowerExpr c e) (typeOf c t))
  | .convert t e => do pure (.convert (typeOf c t) (← lowerExpr c e))
  | .composite t elems => do pure (.composite (typeOf c t) false (← lowerElems c elems))
  | .funcLit pos params results body => do
    let (body, closures) := (lowerStmts c body).run []
    addClosure {
      name := "", line := pos.line, receiver := none, signature := signatureOf c params results,
      typeParams := [], body := some body, closures }
  | .unary .address (.composite t elems) => do
    pure (.composite (typeOf c t) true (← lowerElems c elems))
  | .unary op e => do pure (.unary op (← lowerExpr c e))
  | .binary a b => do
    let left ← lowerExpr c a
    let right ← lowerExpr c b
    pure (.other [left, right])
  | .paren e => lowerExpr c e
  | .spread e => lowerExpr c e
  | .type t => pure (typeArgument c t)
  | .keyed _ value => lowerExpr c value
  | .elements elems => do pure (.other ((← lowerElems c elems).map Elem.value))

/-- The outlines of a list of expressions, from the left. -/
def lowerExprs (c : Context) : List Source.Expr → Lowering (List Expr)
  | [] => pure []
  | e :: rest => do
    let first ← lowerExpr c e
    pure (first :: (← lowerExprs c rest))

/-- The outlines of the elements of a composite literal. -/
def lowerElems (c : Context) : List Source.Expr → Lowering (List Elem)
  | [] => pure []
  | .keyed key value :: rest => do
    let first ← lowerExpr c value
    pure (.mk (keyName key) first :: (← lowerElems c rest))
  | e :: rest => do
    let first ← lowerExpr c e
    pure (.mk none first :: (← lowerElems c rest))

/-- The outline of a statement, which may be several statements or none. -/
def lowerStmt (c : Context) : Source.Stmt → Lowering (List Stmt)
  | .define names values => do pure [.define (names.map declaredName) (← lowerExprs c values)]
  | .assign targets values => do
    let targets ← lowerExprs c targets
    pure [.assign targets (← lowerExprs c values)]
  | .var _ names ty values => do pure [.var names (ty.map (typeOf c)) (← lowerExprs c values)]
  | .const names ty values => do
    pure [.var (names.map Prod.fst) (ty.map (typeOf c)) (← lowerExprs c values)]
  | .types specs => pure [.localTypes (specs.map specName)]
  | .ret values => do pure [.ret (← lowerExprs c values)]
  | .expr e => do pure [.expr (← lowerExpr c e)]
  | .test e => if isEffective e then do pure [.expr (← lowerExpr c e)] else pure []
  | .range names define e => do pure [.range (names.map declaredName) define (← lowerExpr c e)]
  | .receive targets define e => do
    let value ← lowerExpr c e
    if targets.isEmpty then pure [.expr value]
    else if define then pure [.define (targets.map declaredName) [value]]
    else pure [.assign (← lowerExprs c targets) [value]]
  | .send channel value => do
    let first ← if isEffective channel then do pure [.expr (← lowerExpr c channel)] else pure []
    let second ← if isEffective value then do pure [.expr (← lowerExpr c value)] else pure []
    pure (first ++ second)
  | .step _ => pure []
  | .compound parts => lowerStmts c parts
  | .typeSwitch init binding e cases => do
    let before ← lowerStmts c init
    let value ← lowerExpr c e
    let clauses ← lowerCases c cases
    pure (before ++ [.typeSwitch (binding.head?.map declaredName) value clauses])

/-- The outlines of a list of statements. -/
def lowerStmts (c : Context) : List Source.Stmt → Lowering (List Stmt)
  | [] => pure []
  | s :: rest => do
    let first ← lowerStmt c s
    pure (first ++ (← lowerStmts c rest))

/-- The outlines of the cases of a type switch. -/
def lowerCases (c : Context) : List Source.TypeCase → Lowering (List Clause)
  | [] => pure []
  | .mk types body :: rest => do
    let first ← lowerStmts c body
    pure (.mk (types.map (caseTy c)) first :: (← lowerCases c rest))

end

end CallAtlas.Outline
