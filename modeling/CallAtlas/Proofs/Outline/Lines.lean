import CallAtlas.Outline.Basic
import CallAtlas.Proofs.Program.Labels

/-!
# Outlines without lines

Where a call stands in its file decides nothing but the line that is recorded with it. Two versions
of a file have the same outlines up to lines if the outlines without lines (`unlined`) are equal.

What an expression or a statement refers to is read off its parts: the names that it mentions, and
the names that it selects. So declarations of variables depend on each other if one of them refers
to what the other one declares, and `Rearranged` says that declarations stand in another order which
leaves such ones as they are.
-/

set_option autoImplicit false

namespace CallAtlas.Outline

/-! ## Lines -/

mutual

/-- The expression without the lines of its calls. -/
def Expr.unlined : Expr → Expr
  | .call f args types _ => .call f.unlined (unlinedAll args) types 0
  | .selector e n => .selector e.unlined n
  | .assert e t => .assert e.unlined t
  | .convert t e => .convert t e.unlined
  | .unary op e => .unary op e.unlined
  | .composite t p elems => .composite t p (unlinedElems elems)
  | .index b i t => .index b.unlined i.unlined t
  | .other items => .other (unlinedAll items)
  | .ident n => .ident n
  | .funcLit i => .funcLit i
  | .new t => .new t
  | .lit t => .lit t
  | .type t => .type t

def unlinedAll : List Expr → List Expr
  | [] => []
  | e :: rest => e.unlined :: unlinedAll rest

def unlinedElems : List Elem → List Elem
  | [] => []
  | .mk key value :: rest => .mk key value.unlined :: unlinedElems rest

end

mutual

/-- The statement without the lines of its calls. -/
def Stmt.unlined : Stmt → Stmt
  | .define names values => .define names (unlinedAll values)
  | .var names ty values => .var names ty (unlinedAll values)
  | .assign targets values => .assign (unlinedAll targets) (unlinedAll values)
  | .range names define e => .range names define e.unlined
  | .typeSwitch binding e clauses => .typeSwitch binding e.unlined (unlinedClauses clauses)
  | .localTypes names => .localTypes names
  | .ret values => .ret (unlinedAll values)
  | .expr e => .expr e.unlined

def unlinedStmts : List Stmt → List Stmt
  | [] => []
  | s :: rest => s.unlined :: unlinedStmts rest

def unlinedClauses : List Clause → List Clause
  | [] => []
  | .mk types body :: rest => .mk types (unlinedStmts body) :: unlinedClauses rest

end

mutual

/-- The function without its line and those inside of it. -/
def Function.unlined : Function → Function
  | ⟨name, _, receiver, signature, typeParams, body, closures⟩ =>
    ⟨name, 0, receiver, signature, typeParams, body.map unlinedStmts, unlinedFunctions closures⟩

def unlinedFunctions : List Function → List Function
  | [] => []
  | f :: rest => f.unlined :: unlinedFunctions rest

end

theorem length_unlinedAll (es : List Expr) : (unlinedAll es).length = es.length := by
  induction es with
  | nil => rfl
  | cons e rest ih => rw [unlinedAll, List.length_cons, ih, List.length_cons]

theorem unlinedStmts_eq_map (stmts : List Stmt) : unlinedStmts stmts = stmts.map Stmt.unlined := by
  induction stmts with
  | nil => rfl
  | cons s rest ih => rw [unlinedStmts, ih, List.map_cons]

theorem unlinedStmts_append (stmts stmts' : List Stmt) :
    unlinedStmts (stmts ++ stmts') = unlinedStmts stmts ++ unlinedStmts stmts' := by
  simp only [unlinedStmts_eq_map, List.map_append]

theorem unlinedFunctions_eq_map (fs : List Function) :
    unlinedFunctions fs = fs.map Function.unlined := by
  induction fs with
  | nil => rfl
  | cons f rest ih => rw [unlinedFunctions, ih, List.map_cons]

/-! ## Parts -/

mutual

/-- The expression and all expressions inside of it. -/
def exprParts : Expr → List Expr
  | .selector e n => .selector e n :: exprParts e
  | .call f args types line => .call f args types line :: (exprParts f ++ exprsParts args)
  | .assert e t => .assert e t :: exprParts e
  | .convert t e => .convert t e :: exprParts e
  | .unary op e => .unary op e :: exprParts e
  | .composite t p elems => .composite t p elems :: elemsParts elems
  | .index b i t => .index b i t :: (exprParts b ++ exprParts i)
  | .other items => .other items :: exprsParts items
  | .ident n => [.ident n]
  | .funcLit i => [.funcLit i]
  | .new t => [.new t]
  | .lit t => [.lit t]
  | .type t => [.type t]

def exprsParts : List Expr → List Expr
  | [] => []
  | e :: rest => exprParts e ++ exprsParts rest

def elemsParts : List Elem → List Expr
  | [] => []
  | .mk _ value :: rest => exprParts value ++ elemsParts rest

end

mutual

/-- The expressions in a statement. -/
def stmtParts : Stmt → List Expr
  | .define _ values | .var _ _ values | .ret values => exprsParts values
  | .assign targets values => exprsParts targets ++ exprsParts values
  | .range _ _ e | .expr e => exprParts e
  | .typeSwitch _ e clauses => exprParts e ++ clausesParts clauses
  | .localTypes _ => []

def stmtsParts : List Stmt → List Expr
  | [] => []
  | s :: rest => stmtParts s ++ stmtsParts rest

def clausesParts : List Clause → List Expr
  | [] => []
  | .mk _ body :: rest => stmtsParts body ++ clausesParts rest

end

/-- The name that an expression is. -/
def Expr.mention? : Expr → Option String
  | .ident name => some name
  | _ => none

/-- The name that an expression selects. -/
def Expr.selection? : Expr → Option String
  | .selector _ name => some name
  | _ => none

/-- The names that are mentioned in the parts. -/
def mentions (parts : List Expr) : List String := parts.filterMap Expr.mention?

/-- The names that are selected in the parts. -/
def selections (parts : List Expr) : List String := parts.filterMap Expr.selection?

theorem mem_mentions {parts : List Expr} {name : String} :
    name ∈ mentions parts ↔ ∃ e ∈ parts, e.mention? = some name := List.mem_filterMap

theorem mem_selections {parts : List Expr} {name : String} :
    name ∈ selections parts ↔ ∃ e ∈ parts, e.selection? = some name := List.mem_filterMap

@[simp] theorem selections_append (parts parts' : List Expr) :
    selections (parts ++ parts') = selections parts ++ selections parts' := List.filterMap_append

@[simp] theorem selections_cons (e : Expr) (parts : List Expr) :
    selections (e :: parts) = e.selection?.toList ++ selections parts := by
  unfold selections
  rw [List.filterMap_cons]
  cases e.selection? <;> rfl

/-- The names that are selected in the parts are identifiers. -/
def Spelled (parts : List Expr) : Prop := ∀ name ∈ selections parts, Text.isIdentifier name = true

instance (parts : List Expr) : Decidable (Spelled parts) :=
  inferInstanceAs (Decidable (∀ name ∈ selections parts, Text.isIdentifier name = true))

theorem spelled_append_iff {parts parts' : List Expr} :
    Spelled (parts ++ parts') ↔ Spelled parts ∧ Spelled parts' := by
  unfold Spelled
  rw [selections_append, List.forall_mem_append]

/-! ### Parts without lines

The names that are selected do not depend on lines.
-/

mutual

theorem selections_unlined (e : Expr) :
    selections (exprParts e.unlined) = selections (exprParts e) := by
  cases e with
  | selector e n => simp [Expr.unlined, exprParts, Expr.selection?, selections_unlined e]
  | call f args types line =>
    simp [Expr.unlined, exprParts, Expr.selection?, selections_unlined f,
      selections_unlinedAll args]
  | assert e t => simp [Expr.unlined, exprParts, Expr.selection?, selections_unlined e]
  | convert t e => simp [Expr.unlined, exprParts, Expr.selection?, selections_unlined e]
  | unary op e => simp [Expr.unlined, exprParts, Expr.selection?, selections_unlined e]
  | composite t p elems =>
    simp [Expr.unlined, exprParts, Expr.selection?, selections_unlinedElems elems]
  | index b i t =>
    simp [Expr.unlined, exprParts, Expr.selection?, selections_unlined b, selections_unlined i]
  | other items => simp [Expr.unlined, exprParts, Expr.selection?, selections_unlinedAll items]
  | _ => rw [Expr.unlined]

theorem selections_unlinedAll (es : List Expr) :
    selections (exprsParts (unlinedAll es)) = selections (exprsParts es) := by
  cases es with
  | nil => rfl
  | cons e rest => simp [unlinedAll, exprsParts, selections_unlined e, selections_unlinedAll rest]

theorem selections_unlinedElems (elems : List Elem) :
    selections (elemsParts (unlinedElems elems)) = selections (elemsParts elems) := by
  cases elems with
  | nil => rfl
  | cons elem rest =>
    obtain ⟨key, value⟩ := elem
    simp [unlinedElems, elemsParts, selections_unlined value, selections_unlinedElems rest]

end

mutual

theorem selections_unlinedStmt (s : Stmt) :
    selections (stmtParts s.unlined) = selections (stmtParts s) := by
  cases s with
  | typeSwitch binding e clauses =>
    simp [Stmt.unlined, stmtParts, selections_unlined e, selections_unlinedClauses clauses]
  | _ => simp [Stmt.unlined, stmtParts, selections_unlined, selections_unlinedAll]

theorem selections_unlinedStmts (stmts : List Stmt) :
    selections (stmtsParts (unlinedStmts stmts)) = selections (stmtsParts stmts) := by
  cases stmts with
  | nil => rfl
  | cons s rest =>
    simp [unlinedStmts, stmtsParts, selections_unlinedStmt s, selections_unlinedStmts rest]

theorem selections_unlinedClauses (clauses : List Clause) :
    selections (clausesParts (unlinedClauses clauses)) = selections (clausesParts clauses) := by
  cases clauses with
  | nil => rfl
  | cons clause rest =>
    obtain ⟨types, body⟩ := clause
    simp [unlinedClauses, clausesParts, selections_unlinedStmts body,
      selections_unlinedClauses rest]

end

/-! ## Dependent declarations -/

namespace GlobalVar

variable (v w : GlobalVar)

/-- The statement that sets the variables. -/
def stmt : Stmt := .var v.names v.ty v.values

/-- The declaration without lines. -/
def unlined : GlobalVar := { v with values := unlinedAll v.values, line := 0 }

/-- The names that become known; a blank name does not. -/
def declared : List String := v.names.filter fun name => name != "_"

/-- The names that can stand for variables of the package: those that are mentioned, and if the
package imports itself (`own`) also those that are selected. -/
def referred (own : Bool) : List String :=
  mentions (exprsParts v.values) ++ if own then selections (exprsParts v.values) else []

/-- One of the declarations refers to a variable of the other one, or both declare one variable. -/
def Dependent (own : Bool) : Prop :=
  (∃ name ∈ v.declared, name ∈ w.declared) ∨ (∃ name ∈ v.referred own, name ∈ w.declared) ∨
    ∃ name ∈ w.referred own, name ∈ v.declared

instance (own : Bool) : Decidable (v.Dependent w own) :=
  inferInstanceAs (Decidable ((∃ name ∈ v.declared, name ∈ w.declared) ∨ _ ∨ _))

variable {v w} in
theorem Dependent.symm {own : Bool} (h : v.Dependent w own) : w.Dependent v own := by
  obtain ⟨name, hv, hw⟩ | h | h := h
  · exact Or.inl ⟨name, hw, hv⟩
  · exact Or.inr (Or.inr h)
  · exact Or.inr (Or.inl h)

theorem unlined_stmt : v.stmt.unlined = v.unlined.stmt := by
  rw [stmt, Stmt.unlined]
  rfl

end GlobalVar

/-- The second list holds the declarations of the first one in an order in which two of them that
depend on each other stand as before. -/
def Rearranged (own : Bool) (vars vars' : List GlobalVar) : Prop :=
  ∃ numbered : List (GlobalVar × Nat), numbered.Perm vars.zipIdx ∧ numbered.map Prod.fst = vars' ∧
    numbered.Pairwise fun v w => w.2 < v.2 → ¬ v.1.Dependent w.1 own

end CallAtlas.Outline
