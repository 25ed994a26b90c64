import CallAtlas.Proofs.Outline.Lines
import CallAtlas.Proofs.Resolve.Requests

/-!
# States that look alike

Two readings of one program, or of two versions of it, meet the same names in different states:
lines differ, and functions have been added in another order. What reading depends on is the `view`
of a state: the types of the variables that are known so far, and where the current body stands.
States over one program with the same view are alike, and every question about names that decides a
call is answered alike in them (`Alike.localVar?` and those behind it).

For a while two states may differ in the types of some variables of the current package (`Hidden`).
Then only expressions that mention one of these variables are read differently.
-/

set_option autoImplicit false

namespace CallAtlas.Resolve

open Outline (Expr)

/-! ## Views -/

/-- What reading depends on beside the program itself. -/
structure View where
  globals : String × String → Option Ty
  scopes : FuncId → Scope
  id : FuncId
  pkg : String
  imports : Table String String
  isInitializer : Bool
  scope : Scope

/-- What a state shows. -/
def State.view (s : State) : View where
  globals := s.program.globals.get?
  scopes id := s.scopes[id]?.getD {}
  id := s.frame.id
  pkg := s.frame.pkg
  imports := s.frame.imports
  isInitializer := s.frame.isInitializer
  scope := s.frame.scope

/-- Variables of the current package whose types are not known, and the names that could be theirs
behind the name of an import. -/
structure Hidden where
  names : List String := []
  qualified : List String := []

/-- An expression, apart from those inside of it, does not refer to a hidden variable, and what it
selects is an identifier. -/
structure Hidden.Clear (x : Hidden) (e : Expr) : Prop where
  mention : ∀ name, e.mention? = some name → name ∉ x.names
  selection : ∀ name, e.selection? = some name → Text.isIdentifier name = true ∧ name ∉ x.qualified

/-- The view without the types of the hidden variables. -/
def View.hide (v : View) (x : Hidden) : View :=
  { v with globals := fun key => if key.1 = v.pkg ∧ key.2 ∈ x.names then none else v.globals key }

theorem View.hide_none (v : View) : v.hide {} = v := by
  simp [View.hide]

/-- States over one program with the same view, but for hidden variables. If a package imports
itself, a hidden variable can be behind the name of an import. -/
structure Alike (b : Program) (x : Hidden) (s s' : State) : Prop where
  left : Over b s
  right : Over b s'
  view : s.view.hide x = s'.view.hide x
  own : ∀ {name : String}, s.frame.imports.get? name = some s.frame.pkg → x.names ⊆ x.qualified

variable {b : Program} {x : Hidden} {s s' t t' : State}

theorem Alike.view_eq (h : Alike b {} s s') : s.view = s'.view := by
  have hview := h.view
  rwa [View.hide_none, View.hide_none] at hview

theorem Alike.of_view (hs : Over b s) (hs' : Over b s') (h : s.view = s'.view) : Alike b {} s s' :=
  ⟨hs, hs', congrArg (View.hide · {}) h, fun _ => List.Subset.refl _⟩

/-- States stay alike while their views stay. -/
theorem Alike.mono (h : Alike b x s s') (ht : Over b t) (ht' : Over b t') (hview : t.view = s.view)
    (hview' : t'.view = s'.view) : Alike b x t t' where
  left := ht
  right := ht'
  view := by rw [hview, hview', h.view]
  own {name} hname := by
    have himports : t.frame.imports = s.frame.imports := congrArg View.imports hview
    have hpkg : t.frame.pkg = s.frame.pkg := congrArg View.pkg hview
    rw [himports, hpkg] at hname
    exact h.own hname

section Questions

variable (hb : Ground b) (h : Alike b x s s')

include h

theorem Alike.id_eq : s.frame.id = s'.frame.id := congrArg View.id h.view

theorem Alike.pkg_eq : s.frame.pkg = s'.frame.pkg := congrArg View.pkg h.view

theorem Alike.imports_eq : s.frame.imports = s'.frame.imports := congrArg View.imports h.view

theorem Alike.symm : Alike b x s' s where
  left := h.right
  right := h.left
  view := h.view.symm
  own hname := by
    rw [← h.imports_eq, ← h.pkg_eq] at hname
    exact h.own hname

theorem Alike.scope_eq : s.frame.scope = s'.frame.scope := congrArg View.scope h.view

theorem Alike.scopes_eq (id : FuncId) : s.scopes[id]?.getD {} = s'.scopes[id]?.getD {} :=
  congrFun (congrArg View.scopes h.view) id

theorem Alike.decls_eq : s.program.decls = s'.program.decls := h.left.decls.trans h.right.decls.symm

theorem Alike.package? (path : String) : s.program.package? path = s'.program.package? path :=
  (h.left.package? path).trans (h.right.package? path).symm

theorem Alike.bind_function {β : Type} {id : FuncId} (hid : id < b.functions.length)
    {g : Function → Option β} (hg : ∀ f : Function, g f.face = g f) :
    (s.program.functions[id]?).bind g = (s'.program.functions[id]?).bind g :=
  (h.left.bind_function hid hg).trans (h.right.bind_function hid hg).symm

/-- A variable that is not hidden has one type. -/
theorem Alike.globalValue {pkg name : String} (hname : pkg = s.frame.pkg → name ∉ x.names) :
    s.globalValue pkg name = s'.globalValue pkg name := by
  have hglobals : (if pkg = s.frame.pkg ∧ name ∈ x.names then none
      else s.program.globals.get? (pkg, name)) = if pkg = s'.frame.pkg ∧ name ∈ x.names then none
      else s'.program.globals.get? (pkg, name) :=
    congrFun (congrArg View.globals h.view) (pkg, name)
  have hshown : ¬ (pkg = s.frame.pkg ∧ name ∈ x.names) := fun hhidden => hname hhidden.1 hhidden.2
  have hshown' : ¬ (pkg = s'.frame.pkg ∧ name ∈ x.names) := h.pkg_eq ▸ hshown
  rw [if_neg hshown, if_neg hshown'] at hglobals
  rw [State.globalValue, State.globalValue, hglobals]

theorem Alike.packageFunc? (pkg name : String) :
    s.program.packageFunc? pkg name = s'.program.packageFunc? pkg name := by
  unfold Program.packageFunc?
  rw [h.package?]

theorem Alike.ownFunc? (name : String) : s.ownFunc? name = s'.ownFunc? name := by
  unfold State.ownFunc?
  rw [h.packageFunc?, h.pkg_eq]

theorem Alike.isOwnMember (name : String) : s.isOwnMember name = s'.isOwnMember name := by
  unfold State.isOwnMember Program.isMember
  rw [h.package?, h.pkg_eq]

theorem Alike.methodOfType? (ty : Ty) (name : String) :
    methodOfType? s ty name = methodOfType? s' ty name := by
  unfold Resolve.methodOfType?
  rw [h.decls_eq]

theorem Alike.closure? (index : Nat) : s.closure? index = s'.closure? index := by
  unfold State.closure?
  rw [← h.id_eq]
  exact h.bind_function h.left.current fun _ => rfl

include hb

theorem Alike.chain : s.program.chain s.frame.id = s'.program.chain s'.frame.id := by
  rw [h.left.chain hb, h.right.chain hb, h.id_eq]

theorem Alike.lt_of_mem_chain {id : FuncId} (hid : id ∈ s.program.chain s.frame.id) :
    id < b.functions.length := by
  rw [h.left.chain hb] at hid
  exact lt_of_mem_chainFrom hb h.left.current hid

theorem Alike.enclosing : s.enclosing = s'.enclosing := congrArg List.tail (h.chain hb)

theorem Alike.localVar? (name : String) : s.localVar? name = s'.localVar? name := by
  unfold State.localVar?
  simp only [h.scope_eq, h.id_eq, h.enclosing hb, h.scopes_eq]

theorem Alike.isLocal (name : String) : s.isLocal name = s'.isLocal name :=
  congrArg Option.isSome (h.localVar? hb name)

theorem Alike.isLocalType (name : String) : s.isLocalType name = s'.isLocalType name := by
  unfold State.isLocalType
  simp only [h.scope_eq, h.enclosing hb, h.scopes_eq]

theorem Alike.isTypeParam (name : String) : s.isTypeParam name = s'.isTypeParam name := by
  have hbind : ∀ s : State, s.isTypeParam name = (s.program.chain s.frame.id).any fun id =>
      ((s.program.functions[id]?).bind fun f => some (f.typeParams.contains name)).getD false := by
    intro s
    unfold State.isTypeParam
    congr 1
    funext id
    cases s.program.functions[id]? <;> rfl
  rw [hbind, hbind, ← h.chain hb, Bool.eq_iff_iff, List.any_eq_true, List.any_eq_true]
  refine exists_congr fun id => and_congr_right fun hid => ?_
  rw [h.bind_function (h.lt_of_mem_chain hb hid) fun _ => rfl]

theorem Alike.importOf? (name : String) : s.importOf? name = s'.importOf? name := by
  unfold State.importOf?
  rw [h.isLocal hb, h.imports_eq]

theorem Alike.qualifier? (e : Expr) : s.qualifier? e = s'.qualifier? e := by
  unfold State.qualifier?
  split
  · rw [h.importOf? hb]
  · rfl

theorem Alike.typeName? (name : String) : s.typeName? name = s'.typeName? name := by
  unfold State.typeName?
  rw [h.isLocal hb, h.decls_eq, h.pkg_eq, h.isLocalType hb, h.isTypeParam hb]

theorem Alike.typeOperand? (e : Expr) : s.typeOperand? e = s'.typeOperand? e := by
  fun_induction State.typeOperand? s e with
  | case1 ty => rfl
  | case2 name => exact h.typeName? hb name
  | case3 qualifier name =>
    rw [State.typeOperand?, h.importOf? hb, h.decls_eq]
  | case4 inner ih => rw [State.typeOperand?, ih]
  | case5 base subscript asType ih => rw [State.typeOperand?, ih]
  | case6 e => rw [State.typeOperand?] <;> assumption

theorem Alike.isBuiltinCall (e : Expr) : isBuiltinCall s e = isBuiltinCall s' e := by
  unfold Resolve.isBuiltinCall
  split
  · rw [h.isLocal hb, h.isOwnMember]
  · rfl

theorem Alike.isWithinReceiver {method : FuncId} (hmethod : method < b.functions.length) :
    s.isWithinReceiver method = s'.isWithinReceiver method := by
  unfold State.isWithinReceiver
  rw [h.bind_function hmethod fun _ => rfl, ← h.chain hb]
  split
  · rfl
  · rw [Bool.eq_iff_iff, List.any_eq_true, List.any_eq_true]
    refine exists_congr fun id => and_congr_right fun hid => ?_
    rw [h.bind_function (h.lt_of_mem_chain hb hid) fun _ => rfl]

theorem Alike.genericBase? (e : Expr) : genericBase? s e = genericBase? s' e := by
  -- the function that is found stands in a table of a package
  have hfound : ∀ {found : Option FuncId}, (∀ id, found = some id → id < b.functions.length) →
      (found.bind fun id => (s.program.functions[id]?).bind fun f =>
        if f.isGeneric then some id else none) =
      found.bind fun id => (s'.program.functions[id]?).bind fun f =>
        if f.isGeneric then some id else none := by
    intro found hlt
    exact Option.bind_congr fun id hid => h.bind_function (hlt id hid) fun _ => rfl
  unfold Resolve.genericBase?
  cases e with
  | ident name =>
    dsimp only
    rw [h.isLocal hb, h.ownFunc?]
    split
    · rfl
    · exact hfound fun id hid => hb.lt_of_packageFunc? ((h.right.packageFunc? _ _).symm.trans hid)
  | selector operand name =>
    cases operand with
    | ident qualifier =>
      dsimp only
      simp only [h.importOf? hb, h.packageFunc?]
      exact Option.bind_congr fun path _ =>
        hfound fun id hid => hb.lt_of_packageFunc? ((h.right.packageFunc? _ _).symm.trans hid)
    | _ => rfl
  | _ => rfl

end Questions

end CallAtlas.Resolve
