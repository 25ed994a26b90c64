import CallAtlas.Proofs.Resolve.Following

/-!
# Exchanging declarations

The initializer of a package sets its variables in the order of their declarations, and the type of
a variable is known to the declarations behind it. Two declarations that do not refer to each
other's variables can change places: each is read with the same names known, and each makes
variables known that the other one does not (`follow_exchange`). So declarations can be brought into
any order in which those that depend on each other stand as before (`Rearranged`).

Main statement: `follow_rearranged`.
-/

set_option autoImplicit false

namespace CallAtlas.Resolve

open Outline (GlobalVar Stmt exprsParts stmtsParts)

variable {b : Program} {own : Bool} {s s' t t' : State} {v w : GlobalVar}

/-! ## Declaring variables in another order -/

theorem View.declare_of_isInitializer {view : View} (h : view.isInitializer = true)
    (name : String) (ty : Ty) :
    view.declare name ty = if name = "_" then view else view.declareGlobal name ty := by
  unfold View.declare
  simp only [h, beq_iff_eq, if_true]

theorem View.isInitializer_declare {view : View} (h : view.isInitializer = true)
    (name : String) (ty : Ty) : (view.declare name ty).isInitializer = true := by
  rw [View.declare_of_isInitializer h]
  split
  · exact h
  · exact h

theorem View.declareGlobal_comm (view : View) {name name' : String} (h : name ≠ name')
    (ty ty' : Ty) : (view.declareGlobal name ty).declareGlobal name' ty' =
      (view.declareGlobal name' ty').declareGlobal name ty := by
  have hkeys : (view.pkg, name) ≠ (view.pkg, name') := fun heq => h (Prod.mk.inj heq).2
  unfold View.declareGlobal
  dsimp only
  congr 1
  funext key
  by_cases hkey : key = (view.pkg, name)
  · rw [hkey, if_neg hkeys, if_pos rfl, if_pos rfl, if_neg hkeys]
  · by_cases hkey' : key = (view.pkg, name')
    · rw [hkey', if_pos rfl, if_neg (Ne.symm hkeys), if_neg (Ne.symm hkeys), if_pos rfl]
    · simp only [if_neg hkey, if_neg hkey']

theorem View.declare_comm {view : View} (hinit : view.isInitializer = true) {name name' : String}
    (h : name = name' → name = "_") (ty ty' : Ty) :
    (view.declare name ty).declare name' ty' = (view.declare name' ty').declare name ty := by
  rw [View.declare_of_isInitializer (View.isInitializer_declare hinit name ty),
    View.declare_of_isInitializer (View.isInitializer_declare hinit name' ty'),
    View.declare_of_isInitializer hinit, View.declare_of_isInitializer hinit]
  by_cases hblank : name = "_"
  · rw [if_pos hblank, if_pos hblank]
  · by_cases hblank' : name' = "_"
    · rw [if_pos hblank', if_pos hblank']
    · rw [if_neg hblank, if_neg hblank', if_neg hblank, if_neg hblank']
      exact View.declareGlobal_comm view (fun heq => hblank (h heq)) ty ty'

theorem View.declareAll_declare {view : View} (hinit : view.isInitializer = true)
    {name : String} (ty : Ty) (declared : Option Ty) {vars : List (String × Ty)}
    (h : ∀ var ∈ vars, name = var.1 → name = "_") :
    (view.declare name ty).declareAll declared vars =
      (view.declareAll declared vars).declare name ty := by
  induction vars generalizing view with
  | nil => rfl
  | cons var rest ih =>
    obtain ⟨hvar, hrest⟩ := List.forall_mem_cons.mp h
    show ((view.declare name ty).declare var.1 _).declareAll declared rest = _
    rw [View.declare_comm hinit hvar, ih (View.isInitializer_declare hinit _ _) hrest]
    rfl

theorem View.declareAll_comm {view : View} (hinit : view.isInitializer = true)
    (declared declared' : Option Ty) {vars vars' : List (String × Ty)}
    (h : ∀ var ∈ vars, ∀ var' ∈ vars', var.1 = var'.1 → var.1 = "_") :
    (view.declareAll declared vars).declareAll declared' vars' =
      (view.declareAll declared' vars').declareAll declared vars := by
  induction vars generalizing view with
  | nil => rfl
  | cons var rest ih =>
    obtain ⟨hvar, hrest⟩ := List.forall_mem_cons.mp h
    show ((view.declare var.1 _).declareAll declared rest).declareAll declared' vars' = _
    rw [ih (View.isInitializer_declare hinit _ _) hrest, View.declareAll_declare hinit _ _ hvar]
    rfl

/-- Declared variables can be hidden again. -/
theorem View.hide_declareAll {view : View} (hinit : view.isInitializer = true) {x : Hidden}
    (declared : Option Ty) {vars : List (String × Ty)}
    (h : ∀ var ∈ vars, var.1 = "_" ∨ var.1 ∈ x.names) :
    (view.declareAll declared vars).hide x = view.hide x := by
  induction vars generalizing view with
  | nil => rfl
  | cons var rest ih =>
    obtain ⟨hvar, hrest⟩ := List.forall_mem_cons.mp h
    refine (ih (View.isInitializer_declare hinit _ _) hrest).trans ?_
    rw [View.declare_of_isInitializer hinit]
    split
    case isTrue => rfl
    case isFalse hblank =>
      unfold View.hide View.declareGlobal
      dsimp only
      congr 1
      funext key
      by_cases hkey : key = (view.pkg, var.1)
      · rw [hkey, if_pos ⟨rfl, hvar.resolve_left hblank⟩, if_pos ⟨rfl, hvar.resolve_left hblank⟩]
      · rw [if_neg hkey]

/-! ## Reading a declaration -/

/-- The values of the variables that a declaration declares. -/
def valuesOf (v : GlobalVar) : M (List (Ty × Origin)) := do
  checkTypes v.ty.toList
  readValues v.values v.names.length

theorem readStmt_var (v : GlobalVar) :
    readStmt v.stmt = (do declareAll v.ty (v.names.zip (← valuesOf v))) := by
  rw [GlobalVar.stmt, readStmt, valuesOf, bind_assoc]

theorem agree_valuesOf (hb : Ground b) {x : Hidden} (h : Alike b x s s') (v : GlobalVar)
    (hclear : ∀ p ∈ exprsParts v.values, x.Clear p) :
    Agree b s s' (valuesOf v) (valuesOf v.unlined) SameTypes :=
  .after_mute h (reports_checkTypes _).mute (reports_checkTypes _).mute fun _ _ _ _ ht =>
    agree_readValues hb ht v.values hclear _

/-- What reading a declaration leads to: its values have effects, and its variables become known. -/
theorem leads_readVar {effects : Effect → Prop} (h : Leads b s ((valuesOf v).after s) effects)
    (hview : ((valuesOf v).after s).view = s.view) :
    Leads b s ((readStmt v.stmt).after s) effects ∧ ((readStmt v.stmt).after s).view =
      s.view.declareAll v.ty (v.names.zip (((valuesOf v).answer s).map Prod.fst)) := by
  have hafter : (readStmt v.stmt).after s =
      (declareAll v.ty (v.names.zip ((valuesOf v).answer s))).after ((valuesOf v).after s) := by
    rw [readStmt_var]
    rfl
  obtain ⟨hdeclared, hcore⟩ :=
    view_core_declareAll v.ty (v.names.zip ((valuesOf v).answer s)) ((valuesOf v).after s)
  rw [hafter]
  refine ⟨(h.trans (leads_of_core h.stands hcore)).congr fun e => by rw [or_false], ?_⟩
  rw [hdeclared, hview, zip_types]

/-! ## Exchanging neighbours -/

/-- The current body is an initializer, and `own` says if its package imports itself. -/
structure View.Sets (view : View) (own : Bool) : Prop where
  isInitializer : view.isInitializer = true
  own : ∀ {name : String}, view.imports.get? name = some view.pkg → own = true

theorem View.Sets.declare {view : View} (h : view.Sets own) (name : String) (ty : Ty) :
    (view.declare name ty).Sets own := by
  rw [View.declare_of_isInitializer h.isInitializer]
  split
  · exact h
  · exact ⟨h.isInitializer, h.own⟩

theorem View.Sets.declareAll {view : View} (h : view.Sets own) (declared : Option Ty)
    (vars : List (String × Ty)) : (view.declareAll declared vars).Sets own := by
  induction vars generalizing view with
  | nil => exact h
  | cons var rest ih => exact ih (h.declare _ _)

/-- The variables that a declaration declares, hidden from another one. -/
def hiddenBy (own : Bool) (v : GlobalVar) : Hidden where
  names := v.declared
  qualified := if own then v.declared else []

/-- A declaration does not see the variables of one that it does not depend on. -/
theorem clear_of_not_dependent (hspelled : Outline.Spelled (exprsParts v.values))
    (h : ¬ v.Dependent w own) : ∀ p ∈ exprsParts v.values, (hiddenBy own w).Clear p := by
  intro p hp
  have hreferred : ∀ name ∈ v.referred own, name ∉ w.declared := fun name hname hdeclared =>
    h (Or.inr (Or.inl ⟨name, hname, hdeclared⟩))
  refine ⟨fun name hname => ?_, fun name hname => ?_⟩
  · exact hreferred name (List.mem_append_left _ (Outline.mem_mentions.mpr ⟨p, hp, hname⟩))
  · have hselected : name ∈ Outline.selections (exprsParts v.values) :=
      Outline.mem_selections.mpr ⟨p, hp, hname⟩
    refine ⟨hspelled name hselected, ?_⟩
    cases own with
    | false => exact List.not_mem_nil
    | true => exact hreferred name (List.mem_append_right _ hselected)

/-- A state is alike to one in which a declaration has been read, but for the variables of it. -/
theorem alike_hiddenBy (h : Alike b {} s s') (hs : s.view.Sets own) {declared : Option Ty}
    {types : List Ty} (ht : Over b t')
    (hview : t'.view = s'.view.declareAll declared (v.names.zip types)) :
    Alike b (hiddenBy own v) s t' where
  left := h.left
  right := ht
  view := by
    rw [hview, ← h.view_eq, View.hide_declareAll hs.isInitializer]
    rintro ⟨name, ty⟩ hvar
    rw [or_iff_not_imp_left]
    intro hblank
    exact List.mem_filter.mpr ⟨(List.of_mem_zip hvar).1, bne_iff_ne.mpr hblank⟩
  own hname := by
    rw [hiddenBy, hs.own hname]
    exact List.Subset.refl _

theorem spelled_clear {parts : List Outline.Expr} (h : Outline.Spelled parts) :
    ∀ p ∈ parts, Hidden.Clear {} p := by
  intro p hp
  refine ⟨fun _ _ => List.not_mem_nil, fun name hname => ⟨?_, List.not_mem_nil⟩⟩
  exact h name (Outline.mem_selections.mpr ⟨p, hp, hname⟩)

/-- Two declarations that do not depend on each other can change places. -/
theorem follow_exchange (hb : Ground b) (h : Alike b {} s s') (hs : s.view.Sets own)
    (hv : Outline.Spelled (exprsParts v.values)) (hw : Outline.Spelled (exprsParts w.values))
    (hfree : ¬ v.Dependent w own) :
    Follow b s s' (do readStmt v.stmt; readStmt w.stmt)
      (do readStmt w.unlined.stmt; readStmt v.unlined.stmt) fun _ _ => True := by
  have hs' : s'.view.Sets own := h.view_eq ▸ hs
  -- what the first declaration of either order leads to
  obtain ⟨_, hleft, _, hleftView, _⟩ := agree_valuesOf hb h v (spelled_clear hv)
  obtain ⟨_, _, hright, _, hrightView, _⟩ := agree_valuesOf hb h w (spelled_clear hw)
  obtain ⟨hfirst, hfirstView⟩ := leads_readVar hleft hleftView
  obtain ⟨hfirst', hfirstView'⟩ := leads_readVar hright hrightView
  -- each declaration is read before and after the other one, and sees the same
  obtain ⟨effects, hvalues, hvalues', hview, hview', htypes⟩ :=
    agree_valuesOf hb (x := hiddenBy own w) (alike_hiddenBy h hs hfirst'.stands hfirstView') v
      (clear_of_not_dependent hv hfree)
  obtain ⟨effects', hothers, hothers', hother, hother', hothertypes⟩ :=
    agree_valuesOf hb (alike_hiddenBy h.symm hs' hfirst.stands hfirstView).symm w
      (clear_of_not_dependent hw fun hdependent => hfree hdependent.symm)
  obtain ⟨hlead, _⟩ := leads_readVar hvalues hview
  obtain ⟨hlead', hlast'⟩ := leads_readVar hvalues' hview'
  obtain ⟨hnext, hlast⟩ := leads_readVar hothers hother
  obtain ⟨hnext', _⟩ := leads_readVar hothers' hother'
  refine ⟨_, hlead.trans hnext, (hnext'.trans hlead').congr fun e => or_comm, ?_, trivial⟩
  refine hlast.trans (Eq.trans ?_ hlast'.symm)
  rw [hfirstView, hfirstView', ← h.view_eq, htypes, ← hothertypes]
  refine View.declareAll_comm hs.isInitializer v.ty w.ty ?_
  rintro ⟨name, ty⟩ hvar ⟨_, ty'⟩ hvar' rfl
  by_contra hblank
  exact hfree (Or.inl ⟨name, List.mem_filter.mpr ⟨(List.of_mem_zip hvar).1, bne_iff_ne.mpr hblank⟩,
    List.mem_filter.mpr ⟨(List.of_mem_zip hvar').1, bne_iff_ne.mpr hblank⟩⟩)

/-! ## Rearranging declarations -/

theorem follow_same (hb : Ground b) (h : Alike b {} s s') {stmts : List Stmt}
    (hspelled : Outline.Spelled (stmtsParts stmts)) :
    Follow b s s' (readStmts stmts) (readStmts stmts) fun _ _ => True :=
  .trans (follow_readStmts hb stmts (spelled_clear hspelled) (.of_view h.left h.left rfl))
    (follow_readStmts hb stmts (spelled_clear hspelled) h.symm).symm

theorem spelled_stmts_iff {vars : List GlobalVar} :
    Outline.Spelled (stmtsParts (vars.map GlobalVar.stmt)) ↔ ∀ v ∈ vars,
      Outline.Spelled (exprsParts v.values) := by
  induction vars with
  | nil => simp [stmtsParts, Outline.Spelled, Outline.selections]
  | cons v rest ih =>
    rw [List.map_cons, stmtsParts, GlobalVar.stmt, Outline.stmtParts,
      Outline.spelled_append_iff, ih, List.forall_mem_cons]

theorem readStmts_pair (stmt stmt' : Stmt) (rest : List Stmt) :
    readStmts (stmt :: stmt' :: rest) =
      (do (do readStmt stmt; readStmt stmt'); readStmts rest) := by
  rw [readStmts, readStmts, bind_assoc]

section Lists

variable (hb : Ground b)

include hb

theorem follow_swap (h : Alike b {} s s') (hs : s.view.Sets own) {rest : List GlobalVar}
    (hspelled : ∀ u ∈ v :: w :: rest, Outline.Spelled (exprsParts u.values))
    (hfree : ¬ v.Dependent w own) :
    Follow b s s' (readStmts ((v :: w :: rest).map GlobalVar.stmt))
      (readStmts ((w :: v :: rest).map GlobalVar.stmt)) fun _ _ => True := by
  obtain ⟨hv, hspelled'⟩ := List.forall_mem_cons.mp hspelled
  obtain ⟨hw, hrest⟩ := List.forall_mem_cons.mp hspelled'
  have hswapped : Outline.Spelled (stmtsParts ((w :: v :: rest).map GlobalVar.stmt)) :=
    spelled_stmts_iff.mpr (List.forall_mem_cons.mpr ⟨hw, List.forall_mem_cons.mpr ⟨hv, hrest⟩⟩)
  -- the declarations without lines stand between the two orders
  refine .trans ?_ (follow_readStmts hb _ (spelled_clear hswapped) h.symm).symm
  simp only [List.map_cons, Outline.unlinedStmts, GlobalVar.unlined_stmt, readStmts_pair]
  exact .bind (follow_exchange hb (.of_view h.left h.left rfl) hs hv hw hfree) fun t t' _ _ ht _ =>
    follow_readStmts hb _ (spelled_clear (spelled_stmts_iff.mpr hrest)) ht

/-- Behind the same declaration. -/
theorem follow_cons (h : Alike b {} s s') (hs : s.view.Sets own)
    (hv : Outline.Spelled (exprsParts v.values)) {stmts stmts' : List Stmt}
    (hrest : ∀ {t t' : State}, Alike b {} t t' → t.view.Sets own →
      Follow b t t' (readStmts stmts) (readStmts stmts') fun _ _ => True) :
    Follow b s s' (readStmts (v.stmt :: stmts)) (readStmts (v.stmt :: stmts')) fun _ _ => True := by
  obtain ⟨_, hvalues, _, hview, _⟩ := agree_valuesOf hb h v (spelled_clear hv)
  have hsets : ((readStmt v.stmt).after s).view.Sets own := by
    rw [(leads_readVar hvalues hview).2]
    exact hs.declareAll _ _
  have hclear : ∀ p ∈ Outline.stmtParts v.stmt, Hidden.Clear {} p := by
    rw [GlobalVar.stmt, Outline.stmtParts]
    exact spelled_clear hv
  have hfirst := Follow.trans (follow_readStmt hb v.stmt hclear (.of_view h.left h.left rfl))
    (follow_readStmt hb v.stmt hclear h.symm).symm
  rw [readStmts, readStmts]
  exact hfirst.bind_after fun ht _ => hrest ht hsets

/-- A declaration can be moved in front of those that it does not depend on. -/
theorem follow_moved (h : Alike b {} s s') (hs : s.view.Sets own) {front back : List GlobalVar}
    (hspelled : ∀ u ∈ v :: (front ++ back), Outline.Spelled (exprsParts u.values))
    (hfree : ∀ u ∈ front, ¬ u.Dependent v own) :
    Follow b s s' (readStmts ((front ++ v :: back).map GlobalVar.stmt))
      (readStmts ((v :: (front ++ back)).map GlobalVar.stmt)) fun _ _ => True := by
  induction front generalizing s s' with
  | nil => exact follow_same hb h (spelled_stmts_iff.mpr hspelled)
  | cons u front ih =>
    obtain ⟨hv, hspelled'⟩ := List.forall_mem_cons.mp hspelled
    obtain ⟨hu, hrest⟩ := List.forall_mem_cons.mp hspelled'
    obtain ⟨hufree, hfree⟩ := List.forall_mem_cons.mp hfree
    have hmoved := follow_cons hb (.of_view h.left h.left rfl) hs hu fun ht hsets =>
      ih ht hsets (List.forall_mem_cons.mpr ⟨hv, hrest⟩) hfree
    refine .trans hmoved (follow_swap hb h hs ?_ hufree)
    exact List.forall_mem_cons.mpr ⟨hu, List.forall_mem_cons.mpr ⟨hv, hrest⟩⟩

theorem follow_numbered (h : Alike b {} s s') (hs : s.view.Sets own)
    {vars vars' : List (GlobalVar × Nat)} (hnumbers : vars.Pairwise fun v w => v.2 < w.2)
    (hperm : vars'.Perm vars)
    (horder : vars'.Pairwise fun v w => w.2 < v.2 → ¬ v.1.Dependent w.1 own)
    (hspelled : ∀ v ∈ vars, Outline.Spelled (exprsParts v.1.values)) :
    Follow b s s' (readStmts ((vars.map Prod.fst).map GlobalVar.stmt))
      (readStmts ((vars'.map Prod.fst).map GlobalVar.stmt)) fun _ _ => True := by
  -- the first declaration is moved to the front of the second list, and the others follow
  induction vars generalizing vars' s s' with
  | nil =>
    obtain rfl := hperm.eq_nil
    exact .pure h trivial
  | cons v rest ih =>
    obtain ⟨front, back, rfl⟩ := List.append_of_mem (hperm.mem_iff.mpr List.mem_cons_self)
    have hothers : (front ++ back).Perm rest := (List.perm_middle.symm.trans hperm).cons_inv
    obtain ⟨hless, hnumbers⟩ := List.pairwise_cons.mp hnumbers
    obtain ⟨hv, hrest⟩ := List.forall_mem_cons.mp hspelled
    have hfree : ∀ u ∈ front, ¬ u.1.Dependent v.1 own := fun u hu =>
      (List.pairwise_append.mp horder).2.2 u hu v List.mem_cons_self
        (hless u (hothers.subset (List.mem_append_left _ hu)))
    have hbehind := follow_cons hb (.of_view h.left h.left rfl) hs hv fun ht hsets =>
      ih ht hsets hnumbers hothers
        (horder.sublist ((List.Sublist.refl _).append (List.sublist_cons_self _ _))) hrest
    rw [List.map_append] at hbehind
    rw [List.map_append, List.map_cons (l := back)]
    refine .trans hbehind (follow_moved hb h.symm (h.view_eq ▸ hs) ?_ ?_).symm
    · rw [← List.map_append, List.forall_mem_cons]
      refine ⟨hv, List.forall_mem_map.mpr fun u hu => hrest u (hothers.subset hu)⟩
    · exact List.forall_mem_map.mpr hfree

/-- Declarations that are brought into another order have the same effects, if those that depend on
each other stand as before. -/
theorem follow_rearranged (h : Alike b {} s s') (hs : s.view.Sets own) {vars vars' : List GlobalVar}
    (hvars : Outline.Rearranged own vars vars')
    (hspelled : ∀ v ∈ vars, Outline.Spelled (exprsParts v.values)) :
    Follow b s s' (readStmts (vars.map GlobalVar.stmt)) (readStmts (vars'.map GlobalVar.stmt))
      fun _ _ => True := by
  obtain ⟨numbered, hperm, rfl, horder⟩ := hvars
  have hnumbers : vars.zipIdx.Pairwise fun v w => v.2 < w.2 := by
    rw [← List.pairwise_map (f := Prod.snd) (R := fun i j => i < j), List.zipIdx_map_snd]
    exact List.pairwise_lt_range' ..
  have hfollow := follow_numbered hb h hs hnumbers hperm horder fun v hv =>
    hspelled v.1 (List.fst_mem_of_mem_zipIdx hv)
  rwa [List.zipIdx_map_fst] at hfollow

end Lists

end CallAtlas.Resolve
