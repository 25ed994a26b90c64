import CallAtlas.Outline.Lowering
import Mathlib.Data.List.Forall2

/-!
# The calls of a body and the calls of its outline

A body has the calls that are written in it, and the function literals in it have their own. Both
are collected over the whole syntax tree, types included (`stmtsSpots`), each with the place
where it stands: lowered and kept, lowered and thrown away, or never looked at. The last are the
bounds of a slice, the keys of a composite literal, the operand of `++` and `--`, the left side
of a declaration, and every type. Thrown away are the arguments of a call of `new` that is taken
for an allocation.

The calls of an outline are collected in the same way (`stmtsMarks`). `KeepsCalls` says that they
are the calls of the body, each once.
-/

set_option autoImplicit false

namespace CallAtlas

namespace Source

/-- What is seen of a call: its line and the number of its arguments, or that it allocates. -/
inductive Mark where
  | call (line args : Nat)
  | new
deriving DecidableEq, Repr

/-- What lowering does with an expression in some place. -/
inductive Place where
  | kept
  | discarded
  | skipped
deriving DecidableEq, Repr

/-- The body of a function or of a function literal, with the line of that. -/
structure Body where
  line : Nat
  stmts : List Stmt

/-- A call or a function literal in the place where it stands. -/
inductive Spot where
  | call (mark : Mark) (place : Place)
  | literal (body : Body) (place : Place)

namespace Spot

/-- The spot inside something that is not looked at. -/
def skip : Spot → Spot
  | .call mark _ => .call mark .skipped
  | .literal body _ => .literal body .skipped

/-- The spot inside something that is lowered and thrown away. -/
def discard : Spot → Spot
  | .call mark .skipped => .call mark .skipped
  | .call mark _ => .call mark .discarded
  | .literal body place => .literal body place

/-- The call, wherever it stands. -/
def call? : Spot → Option Mark
  | .call mark _ => some mark
  | .literal _ _ => none

/-- The call, if it is kept. -/
def kept? : Spot → Option Mark
  | .call mark .kept => some mark
  | _ => none

/-- The call, if it is lost. -/
def lost? : Spot → Option Mark
  | .call _ .kept => none
  | .call mark _ => some mark
  | .literal _ _ => none

/-- The literal, unless it is skipped. -/
def literal? : Spot → Option Body
  | .call _ _ => none
  | .literal _ .skipped => none
  | .literal body _ => some body

end Spot

/-- The expression is lowered to a plain name. -/
def Expr.isName : Expr → Bool
  | .ident _ => true
  | .slice e _ | .paren e | .spread e | .keyed _ e => e.isName
  | _ => false

/-- The expression is lowered to something that `new` takes for a type. -/
def Expr.isTypeLike : Expr → Bool
  | .ident _ => true
  | .selector e _ => e.isName
  | .type (.union _ _) | .type (.negated _) => false
  | .type _ => true
  | .slice e _ | .paren e | .spread e | .keyed _ e => e.isTypeLike
  | _ => false

/-- The call of `func` is taken for an allocation. -/
def isAllocation (func : Expr) (args : List Expr) : Bool :=
  match func, args with
  | .ident "new", arg :: _ => arg.isTypeLike
  | _, _ => false

/-! ## The spots of a tree

The order is that in which lowering ends, so that literals stand in the order of their numbers. -/

mutual

def typeSpots : TypeExpr → List Spot
  | .name _ | .qualified _ _ => []
  | .pointer t | .slice t | .chan t | .paren t | .negated t => typeSpots t
  | .array length t => exprSpots length ++ typeSpots t
  | .map a b | .union a b => typeSpots a ++ typeSpots b
  | .func params results => entriesSpots params ++ entriesSpots results
  | .interface entries | .struct entries => entriesSpots entries
  | .generic base args => typeSpots base ++ typesSpots args

def typesSpots : List TypeExpr → List Spot
  | [] => []
  | t :: rest => typeSpots t ++ typesSpots rest

def entriesSpots : List Entry → List Spot
  | [] => []
  | .mk _ ty _ :: rest => typeSpots ty ++ entriesSpots rest

def exprSpots : Expr → List Spot
  | .ident _ | .literal _ => []
  | .selector e _ | .unary _ e | .paren e | .spread e => exprSpots e
  | .index a b | .binary a b => exprSpots a ++ exprSpots b
  | .slice e bounds => (exprsSpots bounds).map Spot.skip ++ exprSpots e
  | .call pos f types args =>
    -- the arguments are lowered before the function, and an allocation throws them away
    (typesSpots types).map Spot.skip ++
      if isAllocation f args then (exprsSpots args).map Spot.discard ++ [.call .new .kept]
      else exprsSpots args ++ (exprSpots f ++ [.call (.call pos.line args.length) .kept])
  | .assert e t => (typeSpots t).map Spot.skip ++ exprSpots e
  | .convert t e => (typeSpots t).map Spot.skip ++ exprSpots e
  | .composite t elems => (typeSpots t).map Spot.skip ++ exprsSpots elems
  -- the calls in the literal are its own
  | .funcLit pos _ _ body => [.literal ⟨pos.line, body⟩ .kept]
  | .type t => (typeSpots t).map Spot.skip
  | .keyed key value => (exprSpots key).map Spot.skip ++ exprSpots value
  | .elements elems => exprsSpots elems

def exprsSpots : List Expr → List Spot
  | [] => []
  | e :: rest => exprSpots e ++ exprsSpots rest

def stmtSpots : Stmt → List Spot
  | .define names values => (exprsSpots names).map Spot.skip ++ exprsSpots values
  | .assign targets values => exprsSpots targets ++ exprsSpots values
  | .var _ _ ty values | .const _ ty values =>
    (optionSpots ty).map Spot.skip ++ exprsSpots values
  | .types specs => (specsSpots specs).map Spot.skip
  | .ret values => exprsSpots values
  | .expr e | .test e => exprSpots e
  | .range names _ e => (exprsSpots names).map Spot.skip ++ exprSpots e
  | .receive targets define e =>
    if define then (exprsSpots targets).map Spot.skip ++ exprSpots e
    else exprSpots e ++ exprsSpots targets
  | .send a b => exprSpots a ++ exprSpots b
  | .step e => (exprSpots e).map Spot.skip
  | .compound parts => stmtsSpots parts
  | .typeSwitch init binding e cases =>
    (exprsSpots binding).map Spot.skip ++ (stmtsSpots init ++ (exprSpots e ++ casesSpots cases))

def optionSpots : Option TypeExpr → List Spot
  | none => []
  | some t => typeSpots t

def stmtsSpots : List Stmt → List Spot
  | [] => []
  | s :: rest => stmtSpots s ++ stmtsSpots rest

def casesSpots : List TypeCase → List Spot
  | [] => []
  | .mk types body :: rest =>
    (typesSpots types).map Spot.skip ++ (stmtsSpots body ++ casesSpots rest)

def specsSpots : List TypeSpec → List Spot
  | [] => []
  | .mk _ _ params ty _ :: rest => entriesSpots params ++ typeSpots ty ++ specsSpots rest

end

/-- All calls of a body. -/
def callsOf (body : List Stmt) : List Mark := (stmtsSpots body).filterMap Spot.call?

/-- The calls of a body that stand in places where lowering drops them. -/
def lostCalls (body : List Stmt) : List Mark := (stmtsSpots body).filterMap Spot.lost?

/-- The function literals of a body that are lowered, in the order of their numbers. -/
def literalsOf (body : List Stmt) : List Body := (stmtsSpots body).filterMap Spot.literal?

end Source

namespace Outline

open Source (Mark Body)

/-! ## The calls of an outline -/

mutual

def exprMarks : Expr → List Mark
  | .ident _ | .funcLit _ | .lit _ | .type _ => []
  | .selector e _ | .assert e _ | .convert _ e | .unary _ e => exprMarks e
  | .call f args _ line => exprsMarks args ++ (exprMarks f ++ [.call line args.length])
  | .composite _ _ elems => elemsMarks elems
  | .new _ => [.new]
  | .index a b _ => exprMarks a ++ exprMarks b
  | .other parts => exprsMarks parts

def exprsMarks : List Expr → List Mark
  | [] => []
  | e :: rest => exprMarks e ++ exprsMarks rest

def elemsMarks : List Elem → List Mark
  | [] => []
  | .mk _ value :: rest => exprMarks value ++ elemsMarks rest

end

mutual

def stmtMarks : Stmt → List Mark
  | .define _ values | .var _ _ values | .ret values => exprsMarks values
  | .assign targets values => exprsMarks targets ++ exprsMarks values
  | .range _ _ e | .expr e => exprMarks e
  | .typeSwitch _ e clauses => exprMarks e ++ clausesMarks clauses
  | .localTypes _ => []

def stmtsMarks : List Stmt → List Mark
  | [] => []
  | s :: rest => stmtMarks s ++ stmtsMarks rest

def clausesMarks : List Clause → List Mark
  | [] => []
  | .mk _ body :: rest => stmtsMarks body ++ clausesMarks rest

end

/-- The outline of a body has all calls of the body, each once. -/
def KeepsCalls (body : List Source.Stmt) (lowered : List Stmt) : Prop :=
  (stmtsMarks lowered).Perm (Source.callsOf body)

/-- The outline of a function has the calls of its body, each once, but for those that are lost, and
the outlines of its literals in their order, of which the same is true. So it has all calls exactly
if none is lost. -/
inductive Mirrors : Body → Function → Prop
  | mk {b : Body} {f : Function} {lowered : List Stmt} (hline : f.line = b.line)
      (hbody : f.body = some lowered)
      (hcalls : (stmtsMarks lowered ++ Source.lostCalls b.stmts).Perm (Source.callsOf b.stmts))
      (hkeeps : KeepsCalls b.stmts lowered ↔ Source.lostCalls b.stmts = [])
      (hliterals : List.Forall₂ Mirrors (Source.literalsOf b.stmts) f.closures) : Mirrors b f

end Outline

end CallAtlas
