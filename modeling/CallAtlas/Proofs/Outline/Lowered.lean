import CallAtlas.Proofs.Outline.Literals
import CallAtlas.Proofs.Source.Layout

/-!
# What lowering does

A piece of code is described in three ways: by its spots, which tell the calls that are kept from
those that are lost, by its function literals, and by the layout of these. `Lowers` is what is
proved of every part of lowering, and it speaks of all three at once: the functions that the
computation adds mirror the literals among the spots, are the outlines of the literals in the order
of the layout, and are found under the numbers in its answer, which is as a predicate `S` says. The
rules put parts together as the code does, and the one induction over lowering goes through them.

Whether a call of `new` is taken for an allocation is decided on the lowered arguments, so of an
expression `S` also says when its outline is a plain name and when it can be taken for a type.
-/

set_option autoImplicit false

namespace CallAtlas.Outline

open Source (Spot Mark Body Layout FuncLit exprSpots exprsSpots stmtSpots stmtsSpots
  casesSpots exprLayout exprsLayout stmtLayout stmtsLayout casesLayout typesSpots typesLayout
  lostCalls isAllocation)

/-! ## Kept, lost and all calls -/

section Spots

variable (spots : List Spot)

theorem filterMap_kept?_skip : (spots.map Spot.skip).filterMap Spot.kept? = [] := by
  rw [List.filterMap_map, List.filterMap_eq_nil_iff]
  intro spot _
  cases spot <;> rfl

theorem filterMap_literal?_skip : (spots.map Spot.skip).filterMap Spot.literal? = [] := by
  rw [List.filterMap_map, List.filterMap_eq_nil_iff]
  intro spot _
  cases spot <;> rfl

theorem filterMap_kept?_discard : (spots.map Spot.discard).filterMap Spot.kept? = [] := by
  rw [List.filterMap_map, List.filterMap_eq_nil_iff]
  rintro (⟨mark, _ | _ | _⟩ | ⟨body, place⟩) _ <;> rfl

theorem filterMap_literal?_discard :
    (spots.map Spot.discard).filterMap Spot.literal? = spots.filterMap Spot.literal? := by
  rw [List.filterMap_map]
  refine List.filterMap_congr ?_
  rintro (⟨mark, _ | _ | _⟩ | ⟨body, place⟩) _ <;> rfl

/-- A call is kept or it is lost. -/
theorem kept_append_lost_perm :
    (spots.filterMap Spot.kept? ++ spots.filterMap Spot.lost?).Perm
      (spots.filterMap Spot.call?) := by
  induction spots with
  | nil => exact .refl []
  | cons spot rest ih =>
    rcases spot with ⟨mark, _ | _ | _⟩ | ⟨body, place⟩
    · exact ih.cons mark
    · exact List.perm_middle.trans (ih.cons mark)
    · exact List.perm_middle.trans (ih.cons mark)
    · exact ih

end Spots

/-- The calls that are kept. -/
abbrev keptOf (spots : List Spot) : List Mark := spots.filterMap Spot.kept?

theorem keptOf_append (spots spots' : List Spot) :
    keptOf (spots ++ spots') = keptOf spots ++ keptOf spots' :=
  List.filterMap_append

theorem keptOf_skip (skipped spots : List Spot) :
    keptOf (skipped.map Spot.skip ++ spots) = keptOf spots := by
  rw [keptOf_append, keptOf, filterMap_kept?_skip, List.nil_append]

/-! ## What is added -/

/-- What a literal is lowered to where names have the meaning of the context. -/
def outlineOf (c : Context) (l : FuncLit) : Function :=
  FuncLiteral.outline ⟨c, l.pos, l.params, l.results, l.body⟩

/-- The functions that are added behind `before` are what the literals of a piece of code are
lowered to. Its spots are in the order in which they are lowered, its literals as they are
written, with `all` also those that are thrown away, and the numbers are those of the
literals that are not. -/
structure Adds (c : Context) (spots : List Spot) (literals : (all : Bool) → List FuncLiteral)
    (layout : Layout) (before added : List Function) (numbers : List Nat) : Prop where
  /-- Each has the calls of its literal. -/
  mirrors : List.Forall₂ Mirrors (spots.filterMap Spot.literal?) added
  /-- They stand in the order in which the literals are numbered. -/
  outlines : added = layout.numbered.map fun p => outlineOf c p.1
  /-- The layout has with each literal the layout of its code. -/
  inner : ∀ p ∈ layout.numbered, p.2 = p.1.layout
  all : added.Perm ((literals true).map FuncLiteral.outline)
  numbers : Numbers before (before ++ added) numbers (literals false)

namespace Adds

variable {c : Context} {spots spots' : List Spot} {L L' : Bool → List FuncLiteral}
  {layout layout' : Layout} {before added added' : List Function} {ns ns' : List Nat}

theorem none : Adds c [] (fun _ => []) .none before [] [] :=
  ⟨.nil, rfl, fun _ hp => absurd hp List.not_mem_nil, .nil, .nil⟩

theorem append (h : Adds c spots L layout before added ns)
    (h' : Adds c spots' L' layout' (before ++ added) added' ns') :
    Adds c (spots ++ spots') (fun all => L all ++ L' all) (.seq layout layout') before
      (added ++ added') (ns ++ ns') where
  mirrors := by
    rw [List.filterMap_append]
    exact List.rel_append h.mirrors h'.mirrors
  outlines := by rw [h.outlines, h'.outlines, Layout.numbered, List.map_append]
  inner p hp := (List.mem_append.mp hp).elim (h.inner p) (h'.inner p)
  all := by
    rw [List.map_append]
    exact h.all.append h'.all
  numbers := by
    rw [← List.append_assoc]
    exact h.numbers.append h'.numbers (List.prefix_append _ _) (List.prefix_append _ _)

/-- What is lowered first may be written last. -/
theorem crossed (h : Adds c spots L layout before added ns)
    (h' : Adds c spots' L' layout' (before ++ added) added' ns') :
    Adds c (spots ++ spots') (fun all => L' all ++ L all) (.crossed layout' layout) before
      (added ++ added') (ns' ++ ns) where
  mirrors := (h.append h').mirrors
  outlines := (h.append h').outlines
  inner := (h.append h').inner
  all := (h.append h').all.trans (List.perm_append_comm.map _)
  numbers := by
    rw [← List.append_assoc]
    exact h.numbers.swap h'.numbers (List.prefix_append _ _) (List.prefix_append _ _)

/-- Calls, and what is not looked at, make no difference. -/
theorem congr (h : Adds c spots L layout before added ns)
    (hspots : spots'.filterMap Spot.literal? = spots.filterMap Spot.literal?)
    (hlayout : layout'.numbered = layout.numbered) : Adds c spots' L layout' before added ns where
  mirrors := hspots ▸ h.mirrors
  outlines := hlayout ▸ h.outlines
  inner := hlayout ▸ h.inner
  all := h.all
  numbers := h.numbers

end Adds

/-! ## The rules -/

/-- The computation adds what the literals of a piece of code are lowered to, and its answer with
the numbers in it is as `S` says. -/
def Lowers {α : Type} (c : Context) (m : Lowering α) (spots : List Spot)
    (literals : (all : Bool) → List FuncLiteral) (layout : Layout) (S : α → List Nat → Prop) :
    Prop :=
  ∀ before, ∃ added numbers, (m.run before).2 = before ++ added ∧
    Adds c spots literals layout before added numbers ∧ S (m.run before).1 numbers

namespace Lowers

variable {α β : Type} {c : Context} {m : Lowering α} {k : α → Lowering β} {spots spots' : List Spot}
  {L L' : Bool → List FuncLiteral} {layout layout' : Layout} {S S' : α → List Nat → Prop}
  {T : β → List Nat → Prop}

theorem pure {a : α} (h : S a []) : Lowers c (Pure.pure a) [] (fun _ => []) .none S :=
  fun before => ⟨[], [], (List.append_nil before).symm, .none, h⟩

theorem run_bind {R : β → List Nat → List Nat → Prop} (hm : Lowers c m spots L layout S)
    (hk : ∀ a ns, S a ns → Lowers c (k a) spots' L' layout' fun b ns' => R b ns ns')
    (before : List Function) :
    ∃ added added' ns ns', ((m >>= k).run before).2 = before ++ (added ++ added') ∧
      Adds c spots L layout before added ns ∧
        Adds c spots' L' layout' (before ++ added) added' ns' ∧
      R ((m >>= k).run before).1 ns ns' := by
  obtain ⟨added, ns, heq, hadds, hS⟩ := hm before
  obtain ⟨added', ns', heq', hadds', hR⟩ := hk _ ns hS (before ++ added)
  have hrun : (m >>= k).run before = (k (m.run before).1).run (before ++ added) := by
    rw [← heq]
    rfl
  rw [hrun]
  exact ⟨added, added', ns, ns', by rw [heq', List.append_assoc], hadds, hadds', hR⟩

theorem bind (hm : Lowers c m spots L layout S)
    (hk : ∀ a ns, S a ns → Lowers c (k a) spots' L' layout' fun b ns' => T b (ns ++ ns')) :
    Lowers c (m >>= k) (spots ++ spots') (fun all => L all ++ L' all) (.seq layout layout') T := by
  intro before
  obtain ⟨added, added', ns, ns', heq, hadds, hadds', hT⟩ := hm.run_bind hk before
  exact ⟨added ++ added', ns ++ ns', heq, hadds.append hadds', hT⟩

theorem bind_crossed (hm : Lowers c m spots L layout S)
    (hk : ∀ a ns, S a ns → Lowers c (k a) spots' L' layout' fun b ns' => T b (ns' ++ ns)) :
    Lowers c (m >>= k) (spots ++ spots') (fun all => L' all ++ L all)
      (.crossed layout' layout) T := by
  intro before
  obtain ⟨added, added', ns, ns', heq, hadds, hadds', hT⟩ := hm.run_bind hk before
  exact ⟨added ++ added', ns' ++ ns, heq, hadds.crossed hadds', hT⟩

/-- The answer decides without lowering anything more. -/
theorem bind_pure (hm : Lowers c m spots L layout S)
    (hk : ∀ a ns, S a ns → ∃ b, k a = Pure.pure b ∧ T b ns) :
    Lowers c (m >>= k) spots L layout T := by
  intro before
  obtain ⟨added, ns, heq, hadds, hS⟩ := hm before
  obtain ⟨b, hpure, hT⟩ := hk _ ns hS
  have hrun : (m >>= k).run before = (b, before ++ added) := by
    rw [← heq]
    show (k (m.run before).1).run (m.run before).2 = (b, (m.run before).2)
    rw [hpure]
    rfl
  rw [hrun]
  exact ⟨added, ns, rfl, hadds, hT⟩

theorem map {f : α → β} (hm : Lowers c m spots L layout S) (h : ∀ a ns, S a ns → T (f a) ns) :
    Lowers c (m >>= fun a => Pure.pure (f a)) spots L layout T :=
  hm.bind_pure fun a ns ha => ⟨f a, rfl, h a ns ha⟩

theorem mono (hm : Lowers c m spots L layout S) (h : ∀ a ns, S a ns → S' a ns) :
    Lowers c m spots L layout S' := by
  intro before
  obtain ⟨added, ns, heq, hadds, hS⟩ := hm before
  exact ⟨added, ns, heq, hadds, h _ _ hS⟩

theorem congr (hm : Lowers c m spots L layout S)
    (hspots : spots'.filterMap Spot.literal? = spots.filterMap Spot.literal?)
    (hlayout : layout'.numbered = layout.numbered) : Lowers c m spots' L layout' S := by
  intro before
  obtain ⟨added, ns, heq, hadds, hS⟩ := hm before
  exact ⟨added, ns, heq, hadds.congr hspots hlayout, hS⟩

/-- Nothing but what is not looked at. -/
theorem skipped (hm : Lowers c m [] L .none S) (spots : List Spot) (part : Layout) :
    Lowers c m (spots.map Spot.skip) L (.skipped part) S :=
  hm.congr (filterMap_literal?_skip spots) rfl

/-- Something that is not looked at stands in front. -/
theorem behind (hm : Lowers c m spots L layout S) (skipped : List Spot) (part : Layout) :
    Lowers c m (skipped.map Spot.skip ++ spots) L (.seq (.skipped part) layout) S :=
  hm.congr (by rw [List.filterMap_append, filterMap_literal?_skip, List.nil_append]) rfl

/-- Something that is not looked at stands behind. -/
theorem before (hm : Lowers c m spots L layout S) (skipped : List Spot) (part : Layout) :
    Lowers c m (skipped.map Spot.skip ++ spots) L (.seq layout (.skipped part)) S :=
  hm.congr (by rw [List.filterMap_append, filterMap_literal?_skip, List.nil_append])
    (List.append_nil _)

/-- The answer is thrown away, and with it the numbers. -/
theorem discard (hm : Lowers c m spots L layout S)
    (hk : ∀ a ns, S a ns → ∃ b, k a = Pure.pure b ∧ T b []) :
    Lowers c (m >>= k) (spots.map Spot.discard) (fun all => if all then L all else [])
      layout T := by
  have hnone : Lowers c m (spots.map Spot.discard) (fun all => if all then L all else []) layout
      fun a ns => (∃ ns, S a ns) ∧ ns = [] := by
    intro before
    obtain ⟨added, ns, heq, hadds, hS⟩ := hm before
    refine ⟨added, [], heq, ⟨?_, hadds.outlines, hadds.inner, hadds.all, .nil⟩, ⟨ns, hS⟩, rfl⟩
    rw [filterMap_literal?_discard]
    exact hadds.mirrors
  refine hnone.bind_pure ?_
  rintro a _ ⟨⟨ns, hS⟩, rfl⟩
  exact hk a ns hS

end Lowers

/-! ## What is proved of an answer -/

/-- An outline with these calls and numbers has the calls that are kept and the numbers
that are given out. -/
structure Retains (spots : List Spot) (marks : List Mark) (found numbers : List Nat) : Prop where
  calls : marks.Perm (keptOf spots)
  numbers : found = numbers

namespace Retains

variable {spots spots' : List Spot} {marks marks' : List Mark} {found found' ns ns' : List Nat}

theorem nil : Retains [] [] [] [] := ⟨.refl [], rfl⟩

theorem append (h : Retains spots marks found ns) (h' : Retains spots' marks' found' ns') :
    Retains (spots ++ spots') (marks ++ marks') (found ++ found') (ns ++ ns') where
  calls := by
    rw [keptOf_append]
    exact h.calls.append h'.calls
  numbers := by rw [h.numbers, h'.numbers]

theorem crossed (h : Retains spots marks found ns) (h' : Retains spots' marks' found' ns') :
    Retains (spots ++ spots') (marks' ++ marks) (found' ++ found) (ns' ++ ns) where
  calls := List.perm_append_comm.trans (h.append h').calls
  numbers := (h'.append h).numbers

theorem skip (h : Retains spots marks found ns) (skipped : List Spot) :
    Retains (skipped.map Spot.skip ++ spots) marks found ns :=
  ⟨by rw [keptOf_skip]; exact h.calls, h.numbers⟩

end Retains

def Expr.isName : Expr → Bool
  | .ident _ => true
  | _ => false

/-- The expression can be taken for a type. -/
def Expr.isTypeLike : Expr → Bool
  | .type _ | .ident _ => true
  | .selector e _ => e.isName
  | _ => false

/-- The outline is a name or a type where the expression says so. -/
structure ShapedLike (e : Source.Expr) (e' : Expr) : Prop where
  name : e'.isName = e.isName
  typeLike : e'.isTypeLike = e.isTypeLike

structure Outlined (e : Source.Expr) (e' : Expr) (ns : List Nat) : Prop where
  retains : Retains (exprSpots e) (exprMarks e') (exprNumbers e') ns
  shape : ShapedLike e e'

structure OutlinedAll (es : List Source.Expr) (es' : List Expr) (ns : List Nat) : Prop where
  retains : Retains (exprsSpots es) (exprsMarks es') (exprsNumbers es') ns
  shapes : List.Forall₂ ShapedLike es es'

/-- A statement may be lowered to several. -/
abbrev OutlinedStmts (spots : List Spot) (lowered : List Stmt) (ns : List Nat) : Prop :=
  Retains spots (stmtsMarks lowered) (stmtsNumbers lowered) ns

theorem elemsMarks_eq (elems : List Elem) :
    elemsMarks elems = exprsMarks (elems.map Elem.value) := by
  induction elems with
  | nil => rfl
  | cons elem rest ih =>
    obtain ⟨key, value⟩ := elem
    simp only [elemsMarks, List.map_cons, exprsMarks, Elem.value, ih]

theorem allocated_isSome (c : Context) {args : List Source.Expr} {args' : List Expr}
    (h : List.Forall₂ ShapedLike args args') :
    (allocated c args').isSome = isAllocation (.ident "new") args := by
  cases h with
  | nil => rfl
  | @cons arg arg' _ _ h _ =>
    have htype := h.typeLike
    simp only [isAllocation, ← htype]
    cases arg' with
    | selector e n => cases e <;> rfl
    | _ => rfl

theorem eq_new_of_isAllocation {f : Source.Expr} {args : List Source.Expr}
    (h : isAllocation f args = true) : f = .ident "new" := by
  unfold isAllocation at h
  split at h
  · rfl
  · simp at h

theorem exprMarks_typeArgument (c : Context) (t : Source.TypeExpr) :
    exprMarks (typeArgument c t) = [] := by
  fun_induction typeArgument c t with
  | case1 a b iha ihb => simp [exprMarks, exprsMarks, iha, ihb]
  | case2 t ih => simp [exprMarks, exprsMarks, ih]
  | case3 t _ _ => rfl

theorem outlined_type (c : Context) (t : Source.TypeExpr) :
    Outlined (.type t) (typeArgument c t) [] where
  retains := by
    rw [exprMarks_typeArgument, exprNumbers_typeArgument]
    exact ⟨by rw [exprSpots, keptOf, filterMap_kept?_skip], rfl⟩
  shape := ⟨by cases t <;> rfl, by cases t <;> rfl⟩

theorem stmtsMarks_append (xs ys : List Stmt) :
    stmtsMarks (xs ++ ys) = stmtsMarks xs ++ stmtsMarks ys := by
  induction xs with
  | nil => rfl
  | cons x rest ih => simp only [List.cons_append, stmtsMarks, ih, List.append_assoc]

theorem stmtsMarks_singleton (s : Stmt) : stmtsMarks [s] = stmtMarks s := by
  simp only [stmtsMarks, List.append_nil]

section Answers

variable {spots spots' : List Spot} {ns ns' : List Nat} {lowered lowered' : List Stmt}

/-- A statement that is lowered to one. -/
theorem outlinedStmts_singleton {s : Stmt} (h : Retains spots (stmtMarks s) (stmtNumbers s) ns) :
    OutlinedStmts spots [s] ns := by
  unfold OutlinedStmts
  rwa [stmtsMarks_singleton, stmtsNumbers_singleton]

theorem OutlinedStmts.append (h : OutlinedStmts spots lowered ns)
    (h' : OutlinedStmts spots' lowered' ns') :
    OutlinedStmts (spots ++ spots') (lowered ++ lowered') (ns ++ ns') := by
  unfold OutlinedStmts
  rw [stmtsMarks_append, stmtsNumbers_append]
  exact Retains.append h h'

/-- One value alone. -/
theorem Outlined.single {e : Source.Expr} {e' : Expr} (h : Outlined e e' ns) :
    Retains (exprSpots e) (exprsMarks [e']) (exprsNumbers [e']) ns := by
  rw [exprsMarks, exprsNumbers, exprsMarks, exprsNumbers, List.append_nil, List.append_nil]
  exact h.retains

end Answers

/-- The outline of a function mirrors it if that of its body has the calls that are kept. -/
theorem mirrors_of_lowers {c : Context} {b : Body} {f : Function}
    (h : Lowers c (lowerStmts c b.stmts) (stmtsSpots b.stmts) (stmtsLiterals c · b.stmts)
      (stmtsLayout b.stmts) (OutlinedStmts (stmtsSpots b.stmts)))
    (hline : f.line = b.line) (hbody : f.body = some ((lowerStmts c b.stmts).run []).1)
    (hclosures : f.closures = ((lowerStmts c b.stmts).run []).2) : Mirrors b f := by
  obtain ⟨added, _, heq, hadds, houtlined⟩ := h []
  rw [heq, List.nil_append] at hclosures
  have hall := (houtlined.calls.append_right _).trans (kept_append_lost_perm (stmtsSpots b.stmts))
  refine .mk hline hbody hall ⟨fun hkeeps => ?_, fun hnone => ?_⟩ (hclosures ▸ hadds.mirrors)
  · have hlength := (hall.trans hkeeps.symm).length_eq
    rw [List.length_append] at hlength
    exact List.eq_nil_of_length_eq_zero (Nat.add_eq_left.mp hlength)
  · unfold lostCalls at hnone
    rwa [hnone, List.append_nil] at hall

/-! ## The induction -/

/-- An expression that is evaluated on its own; a name or a literal value, which is left out, has
nothing to lower. -/
theorem lowers_effect {c : Context} {e : Source.Expr}
    (h : Lowers c (lowerExpr c e) (exprSpots e) (exprLiterals c · e) (exprLayout e) (Outlined e)) :
    Lowers c (if isEffective e then do pure [Stmt.expr (← lowerExpr c e)]
      else pure []) (exprSpots e) (exprLiterals c · e) (exprLayout e)
      (OutlinedStmts (exprSpots e)) := by
  split
  · exact h.map fun e' ns h => outlinedStmts_singleton h.retains
  · rename_i heffect
    cases e with
    | ident n => exact .pure .nil
    | literal kind => exact .pure .nil
    | _ => exact absurd rfl heffect

/-- A statement that is left out. -/
theorem lowers_skipped {c : Context} {lowered : List Stmt} {spots : List Spot} {part : Layout}
    (hmarks : stmtsMarks lowered = []) (hnumbers : stmtsNumbers lowered = []) :
    Lowers c (Pure.pure lowered) (spots.map Spot.skip) (fun _ => []) (.skipped part)
      (OutlinedStmts (spots.map Spot.skip)) := by
  refine .skipped (.pure ⟨?_, hnumbers⟩) spots part
  rw [hmarks, keptOf, filterMap_kept?_skip]

theorem lowerStmt_send (c : Context) (channel value : Source.Expr) :
    lowerStmt c (.send channel value) = (do
      let first ← (if isEffective channel then do pure [Stmt.expr (← lowerExpr c channel)]
        else pure [])
      let second ← (if isEffective value then do pure [Stmt.expr (← lowerExpr c value)]
        else pure [])
      pure (first ++ second)) := by
  unfold lowerStmt
  cases isEffective channel <;> cases isEffective value <;> rfl

section Calls

variable {c : Context} {pos : Source.Position} {f : Source.Expr} {types : List Source.TypeExpr}
  {args : List Source.Expr}
  (hargs : Lowers c (lowerExprs c args) (exprsSpots args) (exprsLiterals c · args)
    (exprsLayout args) (OutlinedAll args))
include hargs

/-- A call that is taken for an allocation keeps nothing of its arguments. -/
theorem lowers_allocation (hnew : isAllocation f args = true) :
    Lowers c (lowerExpr c (.call pos f types args)) (exprSpots (.call pos f types args))
      (exprLiterals c · (.call pos f types args)) (exprLayout (.call pos f types args))
      (Outlined (.call pos f types args)) := by
  have hliterals : (exprLiterals c · (.call pos f types args)) =
      fun all => if all then exprsLiterals c all args else [] := by
    funext all
    rw [exprLiterals, if_pos hnew]
  have hspots : exprSpots (.call pos f types args) = (typesSpots types).map Spot.skip ++
      ((exprsSpots args).map Spot.discard ++ [.call .new .kept]) := by
    rw [exprSpots, if_pos hnew]
  have hkept : keptOf (exprSpots (.call pos f types args)) = [.new] := by
    rw [hspots, keptOf_skip, keptOf_append, keptOf, filterMap_kept?_discard]
    rfl
  have hliteral : (exprSpots (.call pos f types args)).filterMap Spot.literal? =
      ((exprsSpots args).map Spot.discard).filterMap Spot.literal? := by
    rw [hspots, List.filterMap_append, List.filterMap_append, filterMap_literal?_skip]
    exact List.append_nil _
  obtain rfl := eq_new_of_isAllocation hnew
  rw [hliterals]
  refine (hargs.discard ?_).congr hliteral (List.append_nil _)
  intro args' ns h
  have hsome : (allocated c args').isSome := (allocated_isSome c h.shapes).trans hnew
  obtain ⟨ty, hty⟩ := Option.isSome_iff_exists.mp hsome
  exact ⟨.new ty, by simp only [hty], ⟨.of_eq hkept.symm, rfl⟩, rfl, rfl⟩

/-- In another call the arguments are lowered before the function that is called. -/
theorem lowers_call
    (hf : Lowers c (lowerExpr c f) (exprSpots f) (exprLiterals c · f) (exprLayout f) (Outlined f))
    (hnew : ¬ isAllocation f args = true) :
    Lowers c (lowerExpr c (.call pos f types args)) (exprSpots (.call pos f types args))
      (exprLiterals c · (.call pos f types args)) (exprLayout (.call pos f types args))
      (Outlined (.call pos f types args)) := by
  have hliterals : (exprLiterals c · (.call pos f types args)) =
      fun all => exprLiterals c all f ++ exprsLiterals c all args := by
    funext all
    rw [exprLiterals, if_neg hnew]
  have hspots : exprSpots (.call pos f types args) = (typesSpots types).map Spot.skip ++
      (exprsSpots args ++ (exprSpots f ++ [.call (.call pos.line args.length) .kept])) := by
    rw [exprSpots, if_neg hnew]
  have hliteral : (exprSpots (.call pos f types args)).filterMap Spot.literal? =
      (exprsSpots args ++ exprSpots f).filterMap Spot.literal? := by
    rw [hspots, List.filterMap_append, filterMap_literal?_skip, ← List.append_assoc,
      List.filterMap_append]
    exact List.append_nil _
  rw [hliterals]
  have hboth : Lowers c (lowerExpr c (.call pos f types args)) (exprsSpots args ++ exprSpots f)
      (fun all => exprLiterals c all f ++ exprsLiterals c all args)
      (.crossed (exprLayout f) (exprsLayout args)) (Outlined (.call pos f types args)) := by
    apply hargs.bind_crossed
    intro args' ns h
    split
    · rename_i hty
      have hsome := allocated_isSome c h.shapes
      simp [hty, hnew] at hsome
    · apply hf.map
      intro f' ns' hf'
      have hlength := h.shapes.length_eq
      refine ⟨⟨?_, (h.retains.crossed hf'.retains).numbers⟩, rfl, rfl⟩
      rw [hspots, keptOf_skip, keptOf_append, keptOf_append, exprMarks, hlength]
      exact h.retains.calls.append (hf'.retains.calls.append (.refl _))
  exact hboth.congr hliteral (by simp [exprLayout, Layout.numbered])

end Calls

mutual

theorem lowers_expr (c : Context) (e : Source.Expr) :
    Lowers c (lowerExpr c e) (exprSpots e) (exprLiterals c · e) (exprLayout e) (Outlined e) := by
  cases e with
  | ident n => exact .pure ⟨.nil, rfl, rfl⟩
  | literal kind => exact .pure ⟨.nil, rfl, rfl⟩
  | type t =>
    exact .skipped (.pure (outlined_type c t)) _ _
  | selector e n => exact (lowers_expr c e).map fun e' ns h => ⟨h.retains, rfl, h.shape.name⟩
  | assert e t =>
    exact ((lowers_expr c e).before _ _).map fun e' ns h => ⟨h.retains.skip _, rfl, rfl⟩
  | convert t e =>
    exact ((lowers_expr c e).behind _ _).map fun e' ns h => ⟨h.retains.skip _, rfl, rfl⟩
  | slice e bounds =>
    exact ((lowers_expr c e).before _ _).mono fun e' ns h =>
      ⟨h.retains.skip _, h.shape.name, h.shape.typeLike⟩
  | paren e =>
    exact (lowers_expr c e).mono fun e' ns h => ⟨h.retains, h.shape.name, h.shape.typeLike⟩
  | spread e =>
    exact (lowers_expr c e).mono fun e' ns h => ⟨h.retains, h.shape.name, h.shape.typeLike⟩
  | keyed key value =>
    exact ((lowers_expr c value).behind _ _).mono fun e' ns h =>
      ⟨h.retains.skip _, h.shape.name, h.shape.typeLike⟩
  | index b i =>
    apply (lowers_expr c b).bind
    intro base ns hbase
    apply (lowers_expr c i).map
    intro index ns' hindex
    exact ⟨hbase.retains.append hindex.retains, rfl, rfl⟩
  | binary a b =>
    apply (lowers_expr c a).bind
    intro left ns hleft
    apply (lowers_expr c b).map
    intro right ns' hright
    exact ⟨hleft.retains.append hright.single, rfl, rfl⟩
  | call pos f types args =>
    -- lowering decides by the lowered arguments, `isAllocation` by those in the source
    by_cases hnew : isAllocation f args = true
    · exact lowers_allocation (lowers_exprs c args) hnew
    · exact lowers_call (lowers_exprs c args) (lowers_expr c f) hnew
  | composite t elems =>
    exact ((lowers_elems c elems).behind _ _).map fun elems' ns h => ⟨h.skip _, rfl, rfl⟩
  | elements elems =>
    apply (lowers_elems c elems).map
    intro elems' ns h
    refine ⟨?_, rfl, rfl⟩
    rw [exprMarks, exprNumbers, ← elemsMarks_eq, ← elemsNumbers_eq]
    exact h
  | funcLit pos params results body =>
    intro before
    let l : FuncLit := ⟨pos, params, results, body⟩
    have hmirrors := mirrors_of_lowers (b := ⟨pos.line, body⟩) (f := outlineOf c l)
      (lowers_stmts c body) rfl rfl rfl
    refine ⟨[outlineOf c l], [before.length], rfl, ⟨.cons hmirrors .nil, rfl, ?_, .refl _, ?_⟩,
      ⟨.refl [], rfl⟩, rfl, rfl⟩
    · intro p hp
      rw [List.mem_singleton.mp hp]
      rfl
    · exact ⟨by simp, .cons List.getElem?_concat_length .nil, by simp⟩
  | unary op e =>
    have hplain : Lowers c (do pure (.unary op (← lowerExpr c e))) (exprSpots (.unary op e))
        (exprLiterals c · (.unary op e)) (exprLayout (.unary op e))
        (Outlined (.unary op e)) := (lowers_expr c e).map fun e' ns h => ⟨h.retains, rfl, rfl⟩
    cases op with
    | address =>
      cases e with
      | composite t elems =>
        exact ((lowers_elems c elems).behind _ _).map fun elems' ns h => ⟨h.skip _, rfl, rfl⟩
      | _ => exact hplain
    | _ => exact hplain

theorem lowers_exprs (c : Context) (es : List Source.Expr) :
    Lowers c (lowerExprs c es) (exprsSpots es) (exprsLiterals c · es) (exprsLayout es)
      (OutlinedAll es) := by
  cases es with
  | nil => exact .pure ⟨.nil, .nil⟩
  | cons e rest =>
    apply (lowers_expr c e).bind
    intro e' ns he
    apply (lowers_exprs c rest).map
    intro rest' ns' hrest
    exact ⟨he.retains.append hrest.retains, .cons he.shape hrest.shapes⟩

theorem lowers_elems (c : Context) (es : List Source.Expr) :
    Lowers c (lowerElems c es) (exprsSpots es) (exprsLiterals c · es) (exprsLayout es)
      fun elems ns => Retains (exprsSpots es) (elemsMarks elems) (elemsNumbers elems) ns := by
  cases es with
  | nil => exact .pure .nil
  | cons e rest =>
    have hfirst := lowers_expr c e
    have hrest := lowers_elems c rest
    -- an element with a key and one without are the same but for the key
    have hcons : ∀ key : Option String, Lowers c (do
        let first ← lowerExpr c e
        pure (.mk key first :: (← lowerElems c rest))) (exprsSpots (e :: rest))
          (exprsLiterals c · (e :: rest)) (exprsLayout (e :: rest)) fun elems ns =>
          Retains (exprsSpots (e :: rest)) (elemsMarks elems) (elemsNumbers elems) ns := by
      intro key
      apply hfirst.bind
      intro first ns h
      apply hrest.map
      intro rest' ns' h'
      exact h.retains.append h'
    cases e with
    | keyed key value => exact hcons (keyName key)
    | _ => exact hcons none

theorem lowers_stmt (c : Context) (s : Source.Stmt) :
    Lowers c (lowerStmt c s) (stmtSpots s) (stmtLiterals c · s) (stmtLayout s)
      (OutlinedStmts (stmtSpots s)) := by
  cases s with
  | define names values =>
    exact ((lowers_exprs c values).behind _ _).map fun values' ns h =>
      outlinedStmts_singleton (h.retains.skip _)
  | assign targets values =>
    apply (lowers_exprs c targets).bind
    intro targets' ns h
    apply (lowers_exprs c values).map
    intro values' ns' h'
    exact outlinedStmts_singleton (h.retains.append h'.retains)
  | var line names ty values =>
    exact ((lowers_exprs c values).behind _ _).map fun values' ns h =>
      outlinedStmts_singleton (h.retains.skip _)
  | const names ty values =>
    exact ((lowers_exprs c values).behind _ _).map fun values' ns h =>
      outlinedStmts_singleton (h.retains.skip _)
  | types specs => exact lowers_skipped rfl rfl
  | ret values =>
    exact (lowers_exprs c values).map fun values' ns h => outlinedStmts_singleton h.retains
  | expr e => exact (lowers_expr c e).map fun e' ns h => outlinedStmts_singleton h.retains
  | test e => exact lowers_effect (lowers_expr c e)
  | range names define e =>
    exact ((lowers_expr c e).behind _ _).map fun e' ns h =>
      outlinedStmts_singleton (h.retains.skip _)
  | receive targets define e =>
    cases define with
    | true =>
      refine ((lowers_expr c e).behind _ _).bind_pure fun value ns h => ?_
      cases targets with
      | nil => exact ⟨_, rfl, outlinedStmts_singleton (h.retains.skip _)⟩
      | cons target rest => exact ⟨_, rfl, outlinedStmts_singleton (h.single.skip _)⟩
    | false =>
      apply (lowers_expr c e).bind_crossed
      intro value ns h
      cases targets with
      | nil => exact .pure (outlinedStmts_singleton (h.retains.crossed .nil))
      | cons target rest =>
        apply (lowers_exprs c (target :: rest)).map
        intro targets' ns' h'
        exact outlinedStmts_singleton (h.single.crossed h'.retains)
  | send channel value =>
    rw [lowerStmt_send]
    apply (lowers_effect (lowers_expr c channel)).bind
    intro first ns h
    exact (lowers_effect (lowers_expr c value)).map fun second ns' h' => h.append h'
  | step e => exact lowers_skipped rfl rfl
  | compound parts => exact lowers_stmts c parts
  | typeSwitch init binding e cases =>
    have hparts : Lowers c (lowerStmt c (.typeSwitch init binding e cases))
        (stmtsSpots init ++ (exprSpots e ++ casesSpots cases))
        (stmtLiterals c · (.typeSwitch init binding e cases))
        (.seq (stmtsLayout init) (.seq (exprLayout e) (casesLayout cases)))
        (OutlinedStmts (stmtSpots (.typeSwitch init binding e cases))) := by
      apply (lowers_stmts c init).bind
      intro before ns h
      apply (lowers_expr c e).bind
      intro value ns' h'
      apply (lowers_cases c cases).map
      intro clauses ns'' h''
      exact (h.append (outlinedStmts_singleton (h'.retains.append h''))).skip _
    exact (hparts.behind (exprsSpots binding) (exprsLayout binding)).congr rfl rfl

theorem lowers_stmts (c : Context) (body : List Source.Stmt) :
    Lowers c (lowerStmts c body) (stmtsSpots body) (stmtsLiterals c · body) (stmtsLayout body)
      (OutlinedStmts (stmtsSpots body)) := by
  cases body with
  | nil => exact .pure .nil
  | cons s rest =>
    apply (lowers_stmt c s).bind
    intro first ns h
    exact (lowers_stmts c rest).map fun rest' ns' h' => OutlinedStmts.append h h'

theorem lowers_cases (c : Context) (cases : List Source.TypeCase) :
    Lowers c (lowerCases c cases) (casesSpots cases) (casesLiterals c · cases) (casesLayout cases)
      fun clauses ns =>
        Retains (casesSpots cases) (clausesMarks clauses) (clausesNumbers clauses) ns := by
  cases cases with
  | nil => exact .pure .nil
  | cons first rest =>
    obtain ⟨types, body⟩ := first
    have hparts : Lowers c (lowerCases c (.mk types body :: rest))
        (stmtsSpots body ++ casesSpots rest) (casesLiterals c · (.mk types body :: rest))
        (.seq (stmtsLayout body) (casesLayout rest)) fun clauses ns =>
        Retains (casesSpots (.mk types body :: rest)) (clausesMarks clauses)
          (clausesNumbers clauses) ns := by
      apply (lowers_stmts c body).bind
      intro first ns h
      apply (lowers_cases c rest).map
      intro rest' ns' h'
      exact (Retains.append h h').skip _
    exact (hparts.behind (typesSpots types) (typesLayout types)).congr rfl rfl

end

end CallAtlas.Outline
