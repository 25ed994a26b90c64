import CallAtlas.Source.Tree
import CallAtlas.Ty

/-!
# Outlines

The outline of a file is what is left of its syntax tree once types are reduced and everything that
cannot carry a call target is dropped. Function literals are taken out of the expressions they stand
in: an expression refers to one by its number in the list of its function.
-/

set_option autoImplicit false

namespace CallAtlas.Outline

/-- An import. The local name of a blank or a dot import is its sign. -/
structure Import where
  localName : Option String
  path : String
  line : Nat
deriving DecidableEq, Repr, Inhabited

/-- A parameter or result. -/
structure Param where
  name : Option String
  ty : Ty
deriving DecidableEq, Repr, Inhabited

/-- The parameters and results of a function, and whether it takes any number of further
arguments. -/
structure Signature where
  params : List Param := []
  results : List Param := []
  variadic : Bool := false
deriving DecidableEq, Repr, Inhabited

/-- A function of this signature can be called with `args` arguments. -/
def Signature.accepts (s : Signature) (args : Nat) : Bool :=
  if s.variadic then s.params.length ≤ args + 1 else args == s.params.length

/-- The receiver of a method. -/
structure Receiver where
  var : Option String
  typeName : String
  pointer : Bool
deriving DecidableEq, Repr, Inhabited

mutual

/-- An expression. The index of `index` is also kept as a type, for a base that turns out to be
generic. -/
inductive Expr where
  | ident (name : String)
  | selector (operand : Expr) (name : String)
  | call (func : Expr) (args : List Expr) (typeArgs : List Ty) (line : Nat)
  | composite (ty : Ty) (pointer : Bool) (elems : List Elem)
  | new (ty : Ty)
  | funcLit (index : Nat)
  | assert (operand : Expr) (ty : Ty)
  | convert (ty : Ty) (operand : Expr)
  | index (base index : Expr) (asType : Ty)
  | unary (op : Source.UnaryOp) (operand : Expr)
  | lit (ty : Ty)
  | type (ty : Ty)
  | other (items : List Expr)

/-- An element of a composite literal, with its key if that is a name. -/
inductive Elem where
  | mk (key : Option String) (value : Expr)

end

instance : Inhabited Expr := ⟨.other []⟩
instance : Inhabited Elem := ⟨.mk none default⟩

mutual

/-- A statement. -/
inductive Stmt where
  | define (names : List String) (values : List Expr)
  | var (names : List String) (ty : Option Ty) (values : List Expr)
  | assign (targets values : List Expr)
  | range (names : List String) (define : Bool) (value : Expr)
  | typeSwitch (binding : Option String) (value : Expr) (clauses : List Clause)
  | localTypes (names : List String)
  | ret (values : List Expr)
  | expr (value : Expr)

/-- A case of a type switch: its types, none for the default case, and its statements. -/
inductive Clause where
  | mk (types : List Ty) (body : List Stmt)

end

instance : Inhabited Stmt := ⟨.ret []⟩

/-- A function, method or function literal with the literals directly inside it. A function without
a body is declared elsewhere. -/
structure Function where
  name : String
  line : Nat
  receiver : Option Receiver
  signature : Signature
  typeParams : List String
  body : Option (List Stmt)
  closures : List Function
deriving Inhabited

/-- A declared type; an alias is only another name for the type it is defined by. -/
structure TypeDecl where
  name : String
  line : Nat
  kind : TypeKind
  isAlias : Bool
deriving DecidableEq, Repr, Inhabited

/-- Variables of a package that are declared together. -/
structure GlobalVar where
  names : List String
  ty : Option Ty
  values : List Expr
  line : Nat
deriving Inhabited

/-- The outline of a file. `initClosures` are the function literals in the values of its variables,
and `unusedImports` are those whose name qualifies nothing in it. -/
structure File where
  package : String := ""
  imports : List Import := []
  types : List TypeDecl := []
  functions : List Function := []
  vars : List GlobalVar := []
  consts : List (String × Nat) := []
  initClosures : List Function := []
  unusedImports : List Import := []
deriving Inhabited

mutual

/-- The expression with `offset` added to the number of every function literal in it. -/
def Expr.shift (offset : Nat) : Expr → Expr
  | .funcLit i => .funcLit (i + offset)
  | .selector e n => .selector (e.shift offset) n
  | .assert e t => .assert (e.shift offset) t
  | .convert t e => .convert t (e.shift offset)
  | .unary op e => .unary op (e.shift offset)
  | .call f args types line => .call (f.shift offset) (shiftAll offset args) types line
  | .composite t p elems => .composite t p (shiftElems offset elems)
  | .index b i t => .index (b.shift offset) (i.shift offset) t
  | .other items => .other (shiftAll offset items)
  | .ident n => .ident n
  | .new t => .new t
  | .lit t => .lit t
  | .type t => .type t

/-- Shifts every expression of a list. -/
def shiftAll (offset : Nat) : List Expr → List Expr
  | [] => []
  | e :: rest => e.shift offset :: shiftAll offset rest

/-- Shifts the values of the elements of a composite literal. -/
def shiftElems (offset : Nat) : List Elem → List Elem
  | [] => []
  | .mk key value :: rest => .mk key (value.shift offset) :: shiftElems offset rest

end

end CallAtlas.Outline
