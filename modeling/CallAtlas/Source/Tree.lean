import CallAtlas.Source.Token

/-!
# The syntax tree of a Go file

The tree keeps what a reader of calls needs: every expression and every type, in the order they are
written, with the places that are reported later. Constructs that differ only in their signs share a
constructor, and statements whose work is to hold other statements are one constructor, `compound`,
with their parts in the order they are written.
-/

set_option autoImplicit false

namespace CallAtlas.Source

/-- The literals of one token, and the predeclared values that are no plain names. -/
inductive Literal where
  | int
  | float
  | imaginary
  | rune
  | text
  | truth
  | nothing
  | iota
deriving DecidableEq, Repr, Inhabited

/-- The signs in front of an operand. -/
inductive UnaryOp where
  | address
  | deref
  | receive
  | arithmetic
deriving DecidableEq, Repr, Inhabited

mutual

/-- A type as it is written. A method of an interface is an entry of one name and a function type,
and an embedded type is an entry without a name. -/
inductive TypeExpr where
  | name (name : String)
  | qualified (pkg name : String)
  | pointer (target : TypeExpr)
  | slice (elem : TypeExpr)
  | array (length : Expr) (elem : TypeExpr)
  | map (key value : TypeExpr)
  | chan (elem : TypeExpr)
  | func (params results : List Entry)
  | interface (members : List Entry)
  | struct (fields : List Entry)
  | generic (base : TypeExpr) (args : List TypeExpr)
  | paren (inner : TypeExpr)
  | union (left right : TypeExpr)
  | negated (inner : TypeExpr)

/-- Some names of one type, in a list of parameters, results, fields or members. The parameter that
takes all further arguments is variadic. -/
inductive Entry where
  | mk (names : List String) (ty : TypeExpr) (variadic : Bool)

/-- An expression. The arguments of a call may be spread over the remaining parameters, and the
first one of a predeclared function is a type; the elements of a composite literal may have keys and
may be lists whose type is left out. -/
inductive Expr where
  | ident (name : String)
  | literal (kind : Literal)
  | selector (operand : Expr) (field : String)
  | index (base index : Expr)
  | slice (operand : Expr) (bounds : List Expr)
  | call (pos : Position) (func : Expr) (typeArgs : List TypeExpr) (args : List Expr)
  | assert (operand : Expr) (ty : TypeExpr)
  | convert (ty : TypeExpr) (operand : Expr)
  | composite (ty : TypeExpr) (elems : List Expr)
  | funcLit (pos : Position) (params results : List Entry) (body : List Stmt)
  | unary (op : UnaryOp) (operand : Expr)
  | binary (left right : Expr)
  | paren (inner : Expr)
  | spread (operand : Expr)
  | type (ty : TypeExpr)
  | keyed (key value : Expr)
  | elements (elems : List Expr)

/-- A statement. The condition of a branch or loop and the values of a switch are tests; the header
of a loop over a collection is a range. -/
inductive Stmt where
  | define (names values : List Expr)
  | assign (targets values : List Expr)
  | var (line : Nat) (names : List String) (ty : Option TypeExpr) (values : List Expr)
  | const (names : List (String × Nat)) (ty : Option TypeExpr) (values : List Expr)
  | types (specs : List TypeSpec)
  | ret (values : List Expr)
  | expr (value : Expr)
  | test (value : Expr)
  | range (names : List Expr) (define : Bool) (value : Expr)
  | receive (targets : List Expr) (define : Bool) (value : Expr)
  | send (channel value : Expr)
  | step (operand : Expr)
  | compound (parts : List Stmt)
  | typeSwitch (init : List Stmt) (binding : List Expr) (value : Expr) (cases : List TypeCase)

/-- A case of a type switch; the default case has no types. -/
inductive TypeCase where
  | mk (types : List TypeExpr) (body : List Stmt)

/-- A declaration of a type, perhaps with type parameters; an alias is only another name. -/
inductive TypeSpec where
  | mk (line : Nat) (name : String) (params : List Entry) (ty : TypeExpr) (isAlias : Bool)

end

instance : Inhabited TypeExpr := ⟨.name ""⟩
instance : Inhabited Entry := ⟨.mk [] default false⟩
instance : Inhabited Expr := ⟨.ident ""⟩
instance : Inhabited Stmt := ⟨.compound []⟩

/-- An import: the name it is given, if any, and the path. -/
structure ImportDecl where
  line : Nat
  name : Option String
  path : String
deriving DecidableEq, Repr, Inhabited

/-- The receiver of a method: its list, and the text of the type that the method belongs to, behind
a star and in front of type arguments. -/
structure ReceiverDecl where
  entries : List Entry
  typeText : String
deriving Inhabited

/-- A function, or with a receiver a method. -/
structure FuncDecl where
  pos : Position
  name : String
  receiver : Option ReceiverDecl
  typeParams : List Entry
  params : List Entry
  results : List Entry
  body : Option (List Stmt)
deriving Inhabited

/-- What may stand at the top of a file. -/
inductive Decl where
  | package (name : String)
  | imports (specs : List ImportDecl)
  | func (decl : FuncDecl)
  | stmt (stmt : Stmt)
deriving Inhabited

end CallAtlas.Source
