import CallAtlas.Outline.File
import CallAtlas.Proofs.Outline.Lowered

/-!
# The code that functions are lowered from

The code of a function is one list of statements, lowered with the names that are known around it.
The initializer of a package has code from many places: the variables of all its files, each with
the imports that stand in front of it. Its literals are numbered through one file, and from file to
file the numbers are shifted by the literals of the files before (`Lowered.append`).
-/

set_option autoImplicit false

namespace CallAtlas.Outline

/-- Statements, and what the names in them stand for. -/
structure Part where
  context : Context
  stmts : List Source.Stmt

/-- The code of a function. -/
abbrev Code := List Part

/-- The literals of an outline of the code, or with `all` also those that are thrown away. -/
def Code.literals (code : Code) (all : Bool) : List FuncLiteral :=
  code.flatMap fun part => stmtsLiterals part.context all part.stmts

theorem Code.literals_append (code code' : Code) (all : Bool) :
    Code.literals (code ++ code') all = code.literals all ++ code'.literals all :=
  List.flatMap_append

theorem Code.literals_singleton (part : Part) (all : Bool) :
    Code.literals [part] all = stmtsLiterals part.context all part.stmts :=
  List.flatMap_singleton ..

/-! ## Lowered code -/

/-- The functions are the outlines of all literals of the code, and the numbers lead to
those that are kept. -/
structure Lowered (code : Code) (closures : List Function) (numbers : List Nat) : Prop where
  all : closures.Perm ((code.literals true).map FuncLiteral.outline)
  numbers : Numbers [] closures numbers (code.literals false)

/-- The function is lowered from the code. -/
def LoweredFrom (code : Code) (f : Function) : Prop :=
  ∃ body, f.body = some body ∧ Lowered code f.closures (stmtsNumbers body)

theorem lowered_nil : Lowered [] [] [] := ⟨.nil, .nil⟩

/-- More code is lowered behind it. -/
theorem Lowered.lower {code : Code} {closures : List Function} {numbers : List Nat}
    (h : Lowered code closures numbers) {α : Type} {m : Lowering α} {spots : List Source.Spot}
    {layout : Source.Layout} {S : α → List Nat → Prop} (part : Part)
    (hm : Lowers part.context m spots (stmtsLiterals part.context · part.stmts) layout S) :
    ∃ ns, S (m.run closures).1 ns ∧
      Lowered (code ++ [part]) (m.run closures).2 (numbers ++ ns) := by
  obtain ⟨added, ns, heq, hadds, hS⟩ := hm closures
  refine ⟨ns, hS, ?_, ?_⟩
  · rw [heq, Code.literals_append, Code.literals_singleton, List.map_append]
    exact h.all.append hadds.all
  · rw [heq, Code.literals_append, Code.literals_singleton]
    exact h.numbers.append hadds.numbers List.nil_prefix (List.prefix_append _ _)

theorem loweredFrom_run {f : Function} {c : Context} {stmts : List Source.Stmt}
    (hbody : f.body = some ((lowerStmts c stmts).run []).1)
    (hclosures : f.closures = ((lowerStmts c stmts).run []).2) : LoweredFrom [⟨c, stmts⟩] f := by
  obtain ⟨ns, houtlined, hlowered⟩ := lowered_nil.lower ⟨c, stmts⟩ (lowers_stmts c stmts)
  refine ⟨_, hbody, ?_⟩
  rw [hclosures, houtlined.numbers]
  exact hlowered

theorem FuncLiteral.loweredFrom_outline (l : FuncLiteral) :
    LoweredFrom [⟨l.context, l.body⟩] l.outline :=
  loweredFrom_run rfl rfl

/-! ## Shifted numbers -/

mutual

theorem exprNumbers_shift (offset : Nat) (e : Expr) :
    exprNumbers (e.shift offset) = (exprNumbers e).map (· + offset) := by
  cases e with
  | ident n => rfl
  | new t => rfl
  | lit t => rfl
  | type t => rfl
  | funcLit i => rfl
  | selector e n => exact exprNumbers_shift offset e
  | assert e t => exact exprNumbers_shift offset e
  | convert t e => exact exprNumbers_shift offset e
  | unary op e => exact exprNumbers_shift offset e
  | call f args types line =>
    simp only [Expr.shift, exprNumbers, exprNumbers_shift offset f, exprsNumbers_shift offset args,
      List.map_append]
  | composite t p elems => exact elemsNumbers_shift offset elems
  | index a b t =>
    simp only [Expr.shift, exprNumbers, exprNumbers_shift offset a, exprNumbers_shift offset b,
      List.map_append]
  | other items => exact exprsNumbers_shift offset items

theorem exprsNumbers_shift (offset : Nat) (es : List Expr) :
    exprsNumbers (shiftAll offset es) = (exprsNumbers es).map (· + offset) := by
  cases es with
  | nil => rfl
  | cons e rest =>
    simp only [shiftAll, exprsNumbers, exprNumbers_shift offset e, exprsNumbers_shift offset rest,
      List.map_append]

theorem elemsNumbers_shift (offset : Nat) (elems : List Elem) :
    elemsNumbers (shiftElems offset elems) = (elemsNumbers elems).map (· + offset) := by
  cases elems with
  | nil => rfl
  | cons elem rest =>
    obtain ⟨key, value⟩ := elem
    simp only [shiftElems, elemsNumbers, exprNumbers_shift offset value,
      elemsNumbers_shift offset rest, List.map_append]

end

theorem Numbers.shift {closures : List Function} {ns : List Nat} {ls : List FuncLiteral}
    (h : Numbers [] closures ns ls) (before : List Function) :
    Numbers before (before ++ closures) (ns.map (· + before.length)) ls where
  new := by simp
  outlines := by
    rw [List.forall₂_map_left_iff]
    apply h.outlines.imp
    intro i l hl
    rwa [List.getElem?_append_right (Nat.le_add_left ..), Nat.add_sub_cancel]
  nodup := List.Pairwise.map _ (fun i j hij heq => hij (Nat.add_right_cancel heq)) h.nodup

/-- The code of two files. -/
theorem Lowered.append {code code' : Code} {closures closures' : List Function} {ns ns' : List Nat}
    (h : Lowered code closures ns) (h' : Lowered code' closures' ns') :
    Lowered (code ++ code') (closures ++ closures') (ns ++ ns'.map (· + closures.length)) where
  all := by
    rw [Code.literals_append, List.map_append]
    exact h.all.append h'.all
  numbers := by
    rw [Code.literals_append]
    exact h.numbers.append (h'.numbers.shift closures) List.nil_prefix (List.prefix_append _ _)

/-! ## Files -/

/-- What names stand for behind a declaration. -/
def Context.after (c : Context) : Source.Decl → Context
  | .imports specs => c.addImports (specs.map importOf)
  | _ => c

/-- The declarations of a file, each with what names stand for where it is written. -/
def inScope (c : Context) : List Source.Decl → List (Context × Source.Decl)
  | [] => []
  | d :: rest => (c, d) :: inScope (c.after d) rest

/-- The outline of the function that is declared. -/
def declaredFunction? : Context × Source.Decl → Option Function
  | (c, .func d) =>
    match d.receiver with
    | none => some (functionOf c d none)
    | some r => (receiverOf r).map fun receiver => functionOf c d (some receiver)
  | _ => none

theorem declaredFunction?_eq_some {c : Context} {d : Source.Decl} {o : Function}
    (h : declaredFunction? (c, d) = some o) :
    ∃ f receiver, d = .func f ∧ o = functionOf c f receiver := by
  cases d with
  | func f =>
    cases hreceiver : f.receiver with
    | none =>
      simp only [declaredFunction?, hreceiver] at h
      exact ⟨f, none, rfl, (Option.some.inj h).symm⟩
    | some r =>
      simp only [declaredFunction?, hreceiver] at h
      obtain ⟨receiver, _, rfl⟩ := Option.map_eq_some_iff.mp h
      exact ⟨f, some receiver, rfl, rfl⟩
  | _ => cases h

/-- The body of a function is lowered where its type parameters are known. -/
theorem loweredFrom_functionOf (c : Context) {d : Source.FuncDecl} (receiver : Option Receiver)
    {stmts : List Source.Stmt} (h : d.body = some stmts) :
    LoweredFrom [⟨{ c with typeParams := (functionOf c d receiver).typeParams }, stmts⟩]
      (functionOf c d receiver) :=
  loweredFrom_run (by simp only [functionOf, h, Option.map_some])
    (by simp only [functionOf, h, Option.map_some, Option.getD_some])

theorem functionOf_of_none (c : Context) {d : Source.FuncDecl} (receiver : Option Receiver)
    (h : d.body = none) :
    (functionOf c d receiver).body = none ∧ (functionOf c d receiver).closures = [] := by
  simp [functionOf, h]

/-- The variables that are declared, as a part of the initializer. -/
def declaredVars? : Context × Source.Decl → Option Part
  | (c, .stmt (.var line names ty values)) => some ⟨c, [.var line names ty values]⟩
  | _ => none

theorem declaredVars?_eq_some {c : Context} {d : Source.Decl} {part : Part}
    (h : declaredVars? (c, d) = some part) :
    ∃ line names ty values, d = .stmt (.var line names ty values) ∧
      part = ⟨c, [.var line names ty values]⟩ := by
  unfold declaredVars? at h
  split at h
  · rename_i heq
    cases heq
    exact ⟨_, _, _, _, rfl, (Option.some.inj h).symm⟩
  · cases h

/-- The code of a file that belongs to the initializer of its package. -/
def initCode (c : Context) (decls : List Source.Decl) : Code :=
  (inScope c decls).filterMap declaredVars?

/-- The numbers in the values of variables. -/
def varsNumbers (vars : List GlobalVar) : List Nat := vars.flatMap fun v => exprsNumbers v.values

section Progress

variable (p : Progress) (d : Source.Decl)

theorem context_add : (p.add d).context = p.context.after d := by
  cases d with
  | package name => rfl
  | imports specs => rfl
  | func f =>
    simp only [Progress.add, Context.after]
    split
    · rfl
    · split <;> rfl
  | stmt s => cases s <;> rfl

theorem functions_add :
    (p.add d).file.functions = p.file.functions ++ (declaredFunction? (p.context, d)).toList := by
  cases d with
  | package name => simp [Progress.add, declaredFunction?]
  | imports specs => simp [Progress.add, declaredFunction?]
  | func f =>
    cases hreceiver : f.receiver with
    | none => simp [Progress.add, declaredFunction?, hreceiver]
    | some r => cases hr : receiverOf r <;> simp [Progress.add, declaredFunction?, hreceiver, hr]
  | stmt s => cases s <;> exact (List.append_nil _).symm

/-- Other declarations leave the initializer as it is. -/
theorem init_add_of_none (h : declaredVars? (p.context, d) = none) :
    (p.add d).file.initClosures = p.file.initClosures ∧ (p.add d).file.vars = p.file.vars := by
  cases d with
  | package name => exact ⟨rfl, rfl⟩
  | imports specs => exact ⟨rfl, rfl⟩
  | func f =>
    cases hreceiver : f.receiver with
    | none => simp [Progress.add, hreceiver]
    | some r => cases hr : receiverOf r <;> simp [Progress.add, hreceiver, hr]
  | stmt s =>
    cases s with
    | var line names ty values => cases h
    | _ => exact ⟨rfl, rfl⟩

theorem lowered_add {code : Code}
    (h : Lowered code p.file.initClosures (varsNumbers p.file.vars)) :
    Lowered (code ++ (declaredVars? (p.context, d)).toList) (p.add d).file.initClosures
      (varsNumbers (p.add d).file.vars) := by
  cases hd : declaredVars? (p.context, d) with
  | none =>
    obtain ⟨hclosures, hvars⟩ := init_add_of_none p d hd
    rwa [hclosures, hvars, Option.toList_none, List.append_nil]
  | some part =>
    obtain ⟨line, names, ty, values, rfl, rfl⟩ := declaredVars?_eq_some hd
    have hvalues : Lowers p.context (lowerExprs p.context values) (Source.exprsSpots values)
        (stmtsLiterals p.context · [.var line names ty values]) (Source.exprsLayout values)
        (OutlinedAll values) := by
      simpa only [stmtsLiterals, stmtLiterals, List.append_nil] using lowers_exprs p.context values
    obtain ⟨ns, houtlined, hlowered⟩ := h.lower ⟨p.context, [.var line names ty values]⟩ hvalues
    have hvars : varsNumbers (p.add (.stmt (.var line names ty values))).file.vars =
        varsNumbers p.file.vars ++ ns := by
      rw [← houtlined.retains.numbers]
      exact List.flatMap_append.trans (congrArg _ (List.flatMap_singleton ..))
    rw [hvars]
    exact hlowered

end Progress

section Files

variable (decls : List Source.Decl)

theorem functions_foldl (p : Progress) :
    (decls.foldl Progress.add p).file.functions =
      p.file.functions ++ (inScope p.context decls).filterMap declaredFunction? := by
  induction decls generalizing p with
  | nil => simp [inScope]
  | cons d rest ih =>
    rw [List.foldl_cons, ih, functions_add, context_add, List.append_assoc, inScope,
      List.filterMap_cons]
    cases declaredFunction? (p.context, d) <;> rfl

theorem lowered_foldl (p : Progress) {code : Code}
    (h : Lowered code p.file.initClosures (varsNumbers p.file.vars)) :
    Lowered (code ++ initCode p.context decls) (decls.foldl Progress.add p).file.initClosures
      (varsNumbers (decls.foldl Progress.add p).file.vars) := by
  induction decls generalizing p code with
  | nil => rwa [initCode, inScope, List.filterMap_nil, List.append_nil]
  | cons d rest ih =>
    have hrest := ih (p.add d) (lowered_add p d h)
    rw [context_add, List.append_assoc] at hrest
    rw [List.foldl_cons, initCode, inScope, List.filterMap_cons]
    cases hd : declaredVars? (p.context, d) with
    | none =>
      rw [hd] at hrest
      exact hrest
    | some part =>
      rw [hd] at hrest
      exact hrest

variable (package : String) (packageNames : Table String String)

theorem functions_ofDecls : (ofDecls package packageNames decls).functions =
    (inScope { package, packageNames } decls).filterMap declaredFunction? := by
  have hfunctions := functions_foldl decls { context := { package, packageNames } }
  exact hfunctions

/-- The literals in the variables of a file. -/
theorem lowered_ofDecls : Lowered (initCode { package, packageNames } decls)
    (ofDecls package packageNames decls).initClosures
    (varsNumbers (ofDecls package packageNames decls).vars) := by
  have hlowered := lowered_foldl decls { context := { package, packageNames } } lowered_nil
  exact hlowered

end Files

end CallAtlas.Outline
