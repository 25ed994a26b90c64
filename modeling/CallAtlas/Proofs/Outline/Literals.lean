import CallAtlas.Proofs.Outline.Calls
import CallAtlas.Proofs.Table

/-!
# Function literals and their numbers

Lowering takes function literals out of the code they stand in and leaves numbers in their places.
Which literals a piece of code has is said without numbers (`stmtsLiterals`), and which numbers an
outline has is said without literals (`stmtsNumbers`), both in the order in which they are written.

The numbers are given out in another order, since arguments are lowered before the function
that is called. So they are not computed: a part of the code gets numbers that no part before
it has (`Numbers`).
-/

set_option autoImplicit false

namespace CallAtlas

namespace Outline

open Source (isAllocation)

/-! ## The literals of a piece of code -/

/-- A function literal, and what the names around it stand for. -/
structure FuncLiteral where
  context : Context
  pos : Source.Position
  params : List Source.Entry
  results : List Source.Entry
  body : List Source.Stmt

/-- What a function literal is lowered to. -/
def FuncLiteral.outline (l : FuncLiteral) : Function where
  name := ""
  line := l.pos.line
  receiver := none
  signature := signatureOf l.context l.params l.results
  typeParams := []
  body := some ((lowerStmts l.context l.body).run []).1
  closures := ((lowerStmts l.context l.body).run []).2

section Literals

/- The literals of an outline, or with `all` also those that are lowered and then thrown away with
the arguments of an allocation. -/
variable (c : Context) (all : Bool)

mutual

def exprLiterals : Source.Expr → List FuncLiteral
  | .ident _ | .literal _ | .type _ => []
  | .selector e _ | .slice e _ | .assert e _ | .convert _ e | .unary _ e | .paren e | .spread e
  | .keyed _ e => exprLiterals e
  | .index a b | .binary a b => exprLiterals a ++ exprLiterals b
  | .call _ f _ args =>
    if isAllocation f args then (if all then exprsLiterals args else [])
    else exprLiterals f ++ exprsLiterals args
  | .composite _ elems | .elements elems => exprsLiterals elems
  | .funcLit pos params results body => [⟨c, pos, params, results, body⟩]

def exprsLiterals : List Source.Expr → List FuncLiteral
  | [] => []
  | e :: rest => exprLiterals e ++ exprsLiterals rest

end

mutual

def stmtLiterals : Source.Stmt → List FuncLiteral
  | .define _ values | .var _ _ _ values | .const _ _ values | .ret values =>
    exprsLiterals c all values
  | .assign targets values => exprsLiterals c all targets ++ exprsLiterals c all values
  | .types _ | .step _ => []
  | .expr e | .test e | .range _ _ e => exprLiterals c all e
  | .receive targets define e =>
    (if define then [] else exprsLiterals c all targets) ++ exprLiterals c all e
  | .send a b => exprLiterals c all a ++ exprLiterals c all b
  | .compound parts => stmtsLiterals parts
  | .typeSwitch init _ e cases =>
    stmtsLiterals init ++ (exprLiterals c all e ++ casesLiterals cases)

def stmtsLiterals : List Source.Stmt → List FuncLiteral
  | [] => []
  | s :: rest => stmtLiterals s ++ stmtsLiterals rest

def casesLiterals : List Source.TypeCase → List FuncLiteral
  | [] => []
  | .mk _ body :: rest => stmtsLiterals body ++ casesLiterals rest

end

end Literals

/-! ## The numbers in an outline -/

mutual

def exprNumbers : Expr → List Nat
  | .ident _ | .new _ | .lit _ | .type _ => []
  | .funcLit i => [i]
  | .selector e _ | .assert e _ | .convert _ e | .unary _ e => exprNumbers e
  | .call f args _ _ => exprNumbers f ++ exprsNumbers args
  | .composite _ _ elems => elemsNumbers elems
  | .index a b _ => exprNumbers a ++ exprNumbers b
  | .other parts => exprsNumbers parts

def exprsNumbers : List Expr → List Nat
  | [] => []
  | e :: rest => exprNumbers e ++ exprsNumbers rest

def elemsNumbers : List Elem → List Nat
  | [] => []
  | .mk _ value :: rest => exprNumbers value ++ elemsNumbers rest

end

mutual

def stmtNumbers : Stmt → List Nat
  | .define _ values | .var _ _ values | .ret values => exprsNumbers values
  | .assign targets values => exprsNumbers targets ++ exprsNumbers values
  | .range _ _ e | .expr e => exprNumbers e
  | .typeSwitch _ e clauses => exprNumbers e ++ clausesNumbers clauses
  | .localTypes _ => []

def stmtsNumbers : List Stmt → List Nat
  | [] => []
  | s :: rest => stmtNumbers s ++ stmtsNumbers rest

def clausesNumbers : List Clause → List Nat
  | [] => []
  | .mk _ body :: rest => stmtsNumbers body ++ clausesNumbers rest

end

theorem stmtsNumbers_append (xs ys : List Stmt) :
    stmtsNumbers (xs ++ ys) = stmtsNumbers xs ++ stmtsNumbers ys := by
  induction xs with
  | nil => rfl
  | cons x rest ih => simp only [List.cons_append, stmtsNumbers, ih, List.append_assoc]

theorem stmtsNumbers_singleton (s : Stmt) : stmtsNumbers [s] = stmtNumbers s := by
  simp only [stmtsNumbers, List.append_nil]

theorem elemsNumbers_eq (elems : List Elem) :
    elemsNumbers elems = exprsNumbers (elems.map Elem.value) := by
  induction elems with
  | nil => rfl
  | cons elem rest ih =>
    obtain ⟨key, value⟩ := elem
    simp only [elemsNumbers, List.map_cons, exprsNumbers, Elem.value, ih]

theorem exprNumbers_typeArgument (c : Context) (t : Source.TypeExpr) :
    exprNumbers (typeArgument c t) = [] := by
  fun_induction typeArgument c t with
  | case1 a b iha ihb => simp [exprNumbers, exprsNumbers, iha, ihb]
  | case2 t ih => simp [exprNumbers, exprsNumbers, ih]
  | case3 t _ _ => rfl

/-! ## New numbers -/

/-- The numbers lead to the outlines of these literals, which were added behind `before`, and no
number comes twice. -/
structure Numbers (before after : List Function) (numbers : List Nat)
    (literals : List FuncLiteral) : Prop where
  new : ∀ i ∈ numbers, before.length ≤ i
  outlines : List.Forall₂ (fun i l => after[i]? = some (FuncLiteral.outline l)) numbers literals
  nodup : numbers.Nodup

namespace Numbers

variable {before mid after : List Function} {ns ns' : List Nat} {ls ls' : List FuncLiteral}

theorem nil : Numbers before after [] [] := ⟨by simp, .nil, .nil⟩

theorem lt (h : Numbers before after ns ls) : ∀ i ∈ ns, i < after.length := by
  intro i hi
  obtain ⟨k, hk⟩ := List.mem_iff_getElem?.mp hi
  have hlt : k < ls.length := by
    rw [← h.outlines.length_eq]
    exact (List.getElem?_eq_some_iff.mp hk).1
  have houtline := h.outlines.get (List.getElem?_eq_some_iff.mp hk).1 hlt
  rw [List.get_eq_getElem, (List.getElem?_eq_some_iff.mp hk).2] at houtline
  exact (List.getElem?_eq_some_iff.mp houtline).1

theorem weaken (h : Numbers before mid ns ls) (hafter : mid <+: after) :
    Numbers before after ns ls where
  new := h.new
  outlines := h.outlines.imp fun _ _ hl => getElem?_of_extends hafter hl
  nodup := h.nodup

/-- What is lowered later has other numbers. -/
theorem ne (h : Numbers before mid ns ls) (h' : Numbers mid after ns' ls') :
    ∀ i ∈ ns, ∀ j ∈ ns', i ≠ j := by
  intro i hi j hj
  exact Nat.ne_of_lt (Nat.lt_of_lt_of_le (h.lt i hi) (h'.new j hj))

theorem append (h : Numbers before mid ns ls) (h' : Numbers mid after ns' ls')
    (hmid : before <+: mid) (hafter : mid <+: after) :
    Numbers before after (ns ++ ns') (ls ++ ls') where
  new i hi := by
    rcases List.mem_append.mp hi with hi | hi
    · exact h.new i hi
    · exact Nat.le_trans hmid.length_le (h'.new i hi)
  outlines := List.rel_append (h.weaken hafter).outlines h'.outlines
  nodup := List.nodup_append.mpr ⟨h.nodup, h'.nodup, h.ne h'⟩

/-- What is lowered later may be written before. -/
theorem swap (h : Numbers before mid ns ls) (h' : Numbers mid after ns' ls') (hmid : before <+: mid)
    (hafter : mid <+: after) : Numbers before after (ns' ++ ns) (ls' ++ ls) where
  new i hi := (h.append h' hmid hafter).new i (List.perm_append_comm.mem_iff.mp hi)
  outlines := List.rel_append h'.outlines (h.weaken hafter).outlines
  nodup := List.perm_append_comm.nodup_iff.mp (h.append h' hmid hafter).nodup

end Numbers

end Outline

end CallAtlas
