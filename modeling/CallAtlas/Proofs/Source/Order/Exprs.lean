import CallAtlas.Proofs.Source.Order.Types

/-!
# Expressions keep the order of the text

A part of an operand is read behind the expression that it belongs to, and the operands of binary
signs are joined after all of them have been read. Neither changes the order: the places of an
expression are those of its parts, from left to right, however tight the signs between them bind.
-/

set_option autoImplicit false

namespace CallAtlas.Source

/-! ## Names, signs and chains -/

theorem starts_asTypeName {e : Expr} {ty : TypeExpr} (h : e.asTypeName = some ty) :
    (exprLayout e).starts = [] ∧ (typeLayout ty).starts = [] := by
  unfold Expr.asTypeName at h
  split at h
  · cases h
    exact ⟨rfl, rfl⟩
  · cases h
    exact ⟨rfl, rfl⟩
  · cases h

-- what is left of a longer sign is at its place
theorem quiet_unarySign : Quiet unarySign := by
  intro ts op rest hrun
  have hrun : unarySign ts = some (op, rest) := hrun
  cases ts with
  | nil => cases hrun
  | cons t ts =>
    simp only [unarySign] at hrun
    split at hrun
    · split at hrun
      · cases hrun
        exact ⟨[t.pos], rfl, List.nil_sublist _⟩
      · cases hrun
        exact ⟨[], rfl, List.nil_sublist _⟩
      · cases hrun
    · cases hrun

/-- Where the literals in a chain of operands start. -/
def chainStarts (chain : Expr × List (String × Expr)) : List Position :=
  (exprLayout chain.1).starts ++ chain.2.flatMap fun x => (exprLayout x.2).starts

theorem chainStarts_joinLevel (level : Nat) (first : Expr) (rest : List (String × Expr)) :
    chainStarts (joinLevel level first rest) = chainStarts (first, rest) := by
  induction rest generalizing first with
  | nil => rfl
  | cons x rest ih =>
    rw [joinLevel]
    split
    · rw [ih]
      simp [chainStarts]
    · have hrest := ih x.2
      simp only [chainStarts] at hrest ⊢
      simp [hrest]

theorem starts_joinChain (first : Expr) (rest : List (String × Expr)) :
    (exprLayout (joinChain first rest)).starts.Sublist (chainStarts (first, rest)) := by
  have hfold : ∀ (levels : List Nat) (chain : Expr × List (String × Expr)),
      chainStarts (levels.foldl (fun c level => joinLevel level c.1 c.2) chain) =
          chainStarts chain := by
    intro levels
    induction levels with
    | nil => exact fun _ => rfl
    | cons level levels ih =>
      intro chain
      rw [List.foldl_cons, ih, chainStarts_joinLevel]
  rw [← hfold [5, 4, 3, 2, 1]]
  exact List.sublist_append_left _ _

namespace Grammar.InOrder

variable {g : Grammar} (h : g.InOrder)
include h

/-! ## Arguments, elements and blocks -/

theorem argument : Takes [] g.argument fun e => (exprLayout e).starts := by
  apply (h.expr .inner).bind
  intro e
  apply Takes.skip (quiet_optionalSign _)
  intro spread
  split
  · exact .pure (List.Sublist.refl _)
  · exact .pure (List.Sublist.refl _)

theorem arguments : Takes [] g.arguments fun es => (exprsLayout es).starts := by
  apply Takes.skip (quiet_sign _)
  intro _
  apply Takes.skip (quiet_optionalSign _)
  intro closed
  split
  · exact .pure (List.nil_sublist _)
  · apply (takes_commaSep1 h.argument).bind
    intro args
    apply Takes.skip (quiet_optionalSign _)
    intro _
    exact .skip (quiet_sign _) fun _ => .pure (by simp)

theorem typeFirstArguments : Takes [] g.typeFirstArguments fun es => (exprsLayout es).starts := by
  apply Takes.skip (quiet_sign _)
  intro _
  apply (h.type false).bind
  intro ty
  apply (takes_many (.skip (quiet_sign _) fun _ => h.expr .inner)).bind
  intro rest
  apply Takes.skip (quiet_optionalSign _)
  intro _
  exact .skip (quiet_sign _) fun _ => .pure (by simp)

theorem converted : Takes [] g.converted fun e => (exprLayout e).starts := by
  apply Takes.skip (quiet_sign _)
  intro _
  apply (h.expr .inner).bind
  intro e
  apply Takes.skip (quiet_optionalSign _)
  intro _
  exact .skip (quiet_sign _) fun _ => .pure (List.Sublist.refl _)

theorem elementValue : Takes [] g.elementValue fun e => (exprLayout e).starts := by
  apply Takes.skip (quiet_atSign _)
  intro nested
  split
  · exact h.elements.bind fun elems => .pure (List.Sublist.refl _)
  · exact h.expr .inner

theorem element : Takes [] g.element fun e => (exprLayout e).starts := by
  apply h.elementValue.bind
  intro first
  apply Takes.skip (quiet_optionalSign _)
  intro keyed
  split
  · exact h.elementValue.bind fun value => .pure (List.Sublist.refl _)
  · exact .pure (List.Sublist.refl _)

theorem elementsRule : Takes [] g.elementsRule fun es => (exprsLayout es).starts := by
  apply Takes.skip (quiet_sign _)
  intro _
  apply (takes_commaList h.element).bind
  intro elems
  exact .skip (quiet_sign _) fun _ => .pure (by simp)

theorem block : Takes [] g.block fun ss => (stmtsLayout ss).starts := by
  apply Takes.skip (quiet_sign _)
  intro _
  apply (h.stmts false).bind
  intro body
  exact .skip (quiet_sign _) fun _ => .pure (List.Sublist.refl _)

/-! ## The first part of an operand -/

/-- A conversion is read as a type with an operand in parentheses behind it. -/
theorem conversion (ty : TypeExpr) :
    Takes (typeLayout ty).starts (g.converted >>= fun e => pure (.convert ty e))
      fun e => (exprLayout e).starts :=
  h.converted.bind fun _ => .pure (List.Sublist.refl _)

theorem typeHead : Takes [] g.typeHead fun e => (exprLayout e).starts := by
  apply (h.term false).andThen
  intro ty
  apply Takes.skip (quiet_atSign _)
  intro brace
  split
  · have helems : Takes (typeLayout ty).starts
        (g.elements >>= fun elems => pure (.composite ty elems)) fun e => (exprLayout e).starts :=
      h.elements.bind fun elems => .pure (List.Sublist.refl _)
    split
    · exact helems
    · exact helems
    · exact helems
    · exact helems
    · exact .failure
  · exact h.conversion ty

theorem openArray : Takes [] g.openArray fun e => (exprLayout e).starts := by
  apply Takes.skip (quiet_sign _)
  intro _
  apply Takes.skip (quiet_sign _)
  intro _
  apply Takes.skip (quiet_sign _)
  intro _
  apply (h.type false).bind
  intro elem
  apply h.elements.bind
  intro elems
  exact .pure (List.Sublist.refl _)

/-- A function literal starts where its word stands. -/
theorem functionValue : Takes [] g.functionValue fun e => (exprLayout e).starts := by
  apply Takes.start
  intro start
  apply h.params.bind
  intro params
  apply (h.results false).bind
  intro results
  apply Takes.skip (quiet_atSign _)
  intro brace
  split
  · apply h.block.bind
    intro body
    exact .pure (by simp)
  · apply h.converted.bind
    intro e
    exact .pure (by simp)

theorem parenthesized : Takes [] g.parenthesized fun e => (exprLayout e).starts := by
  apply Takes.orElse
  · apply (h.term false).andThen
    intro ty
    split
    · exact h.conversion ty
    · exact .failure
  apply Takes.orElse
  · apply Takes.skip (quiet_sign _)
    intro _
    apply (h.expr .inner).bind
    intro e
    exact .skip (quiet_sign _) fun _ => .pure (List.Sublist.refl _)
  · exact (h.term false).andThen h.conversion

theorem head : Takes [] g.head fun e => (exprLayout e).starts := by
  have hlit : ∀ kind, Takes [] (advance >>= fun _ => pure (.literal kind)) fun e =>
      (exprLayout e).starts :=
    fun kind => .skip quiet_advance fun _ => .pure (List.nil_sublist _)
  apply Takes.skip quiet_peek
  intro t
  split
  · exact hlit _
  · exact hlit _
  · exact hlit _
  · exact hlit _
  · exact hlit _
  · split
    · exact h.functionValue
    split
    · exact h.typeHead
    split
    · exact hlit _
    · apply Takes.skip quiet_advance
      intro _
      apply Takes.skip (quiet_atSign _)
      intro paren
      split
      · apply h.typeFirstArguments.bind
        intro args
        exact .pure (List.Sublist.refl _)
      · exact .pure (List.nil_sublist _)
  · split
    · exact h.parenthesized
    split
    · exact h.openArray.orElse h.typeHead
    · exact .failure
  · exact .failure

/-! ## The parts behind it -/

theorem subscript (e : Expr) :
    Takes (exprLayout e).starts (g.subscript e) fun e => (exprLayout e).starts := by
  apply Takes.skip (quiet_sign _)
  intro _
  apply Takes.skip (quiet_atSign _)
  intro colon
  extract_lets withLow
  apply Takes.unless
  · exact h.expr .inner
  intro low
  apply Takes.skip (quiet_optionalSign _)
  intro sliced
  split
  · apply Takes.skip (quiet_atSign _)
    intro bracket
    apply Takes.skip (quiet_atSign _)
    intro colon
    extract_lets withHigh
    apply Takes.unless
    · exact h.expr .inner
    intro high
    apply Takes.skip (quiet_optionalSign _)
    intro colon
    extract_lets withLimit
    split
    · apply (h.expr .inner).bind
      intro limit
      apply Takes.given
      exact .skip (quiet_sign _) fun _ => .pure (by simp)
    · apply Takes.given
      exact .skip (quiet_sign _) fun _ => .pure (by simp)
  · apply Takes.skip (quiet_sign _)
    intro _
    split
    · exact .pure (by simp)
    · exact .failure

theorem bracketed (mode : Mode) (start : Position) (e : Expr) :
    Takes (exprLayout e).starts (g.bracketed mode start e) fun e => (exprLayout e).starts := by
  apply Takes.orElse
  · apply h.typeArgs.bind
    intro types
    apply h.arguments.bind
    intro args
    exact .pure (by simp)
  apply Takes.orElse
  · split
    · rename_i base _ hbase
      apply h.typeArgs.bind
      intro types
      apply h.elements.bind
      intro elems
      exact .pure (by simp [starts_asTypeName hbase])
    · exact .failure
  · exact h.subscript e

theorem part (mode : Mode) (start : Position) (e : Expr) :
    Takes (exprLayout e).starts (g.part mode start e) fun e => (exprLayout e).starts := by
  apply Takes.skip quiet_peek
  intro t
  split
  · exact .failure
  split
  · apply Takes.skip (quiet_sign _)
    intro _
    apply Takes.skip (quiet_atSign _)
    intro paren
    split
    · apply Takes.skip (quiet_sign _)
      intro _
      apply Takes.skip (quiet_atWord _)
      intro word
      split
      · exact .skip .failure fun _ => (h.type false).bind fun _ =>
          .skip (quiet_sign _) fun _ => .pure (List.Sublist.refl _)
      · apply (h.type false).bind
        intro ty
        exact .skip (quiet_sign _) fun _ => .pure (List.Sublist.refl _)
    · exact .skip quiet_anyName fun _ => .pure (List.Sublist.refl _)
  split
  · apply h.arguments.bind
    intro args
    exact .pure (by simp [typesLayout])
  split
  · exact h.bracketed mode start e
  split
  · split
    · rename_i ty _ hty
      apply h.elements.bind
      intro elems
      exact .pure (by simp [starts_asTypeName hty])
    · exact .failure
  · exact .failure

theorem parts (mode : Mode) (start : Position) (fuel : Nat) (e : Expr) :
    Takes (exprLayout e).starts (g.parts mode start fuel e) fun e => (exprLayout e).starts := by
  induction fuel generalizing e with
  | zero => exact .pure (List.Sublist.refl _)
  | succ fuel ih =>
    apply (h.part mode start e).orNone
    · exact ih
    · exact .pure (List.Sublist.refl _)

/-! ## Operands and chains -/

theorem signedConversion : Takes [] g.signedConversion fun e => (exprLayout e).starts := by
  apply Takes.skip quiet_get
  intro stars
  extract_lets behind
  clear_value behind
  split
  · extract_lets onlyType
    split
    · exact (h.term false).andThen h.conversion
    · exact .failure
  · exact .failure

theorem primary (mode : Mode) : Takes [] (g.primary mode) fun e => (exprLayout e).starts := by
  apply Takes.skip quiet_peek
  intro start
  extract_lets withFirst
  have hparts : ∀ e, Takes (exprLayout e).starts (withFirst e) fun e => (exprLayout e).starts :=
    fun e => .skip quiet_get fun _ => h.parts mode start.pos _ e
  split
  · exact h.signedConversion.andThen hparts
  · exact h.head.andThen hparts

theorem operandRule (mode : Mode) :
    Takes [] (g.operandRule mode) fun e => (exprLayout e).starts := by
  apply (h.primary mode).orElse
  apply Takes.skip quiet_unarySign
  intro op
  exact (h.operand mode).bind fun e => .pure (List.Sublist.refl _)

theorem signedOperand (mode : Mode) :
    Takes [] (g.signedOperand mode) fun x => (exprLayout x.2).starts := by
  apply Takes.skip quiet_peek
  intro t
  split
  · exact .failure
  · apply Takes.skip quiet_advance
    intro _
    exact (h.operand mode).bind fun e => .pure (List.Sublist.refl _)

theorem exprRule (mode : Mode) : Takes [] (g.exprRule mode) fun e => (exprLayout e).starts := by
  apply (h.operand mode).bind
  intro first
  apply (takes_many (h.signedOperand mode)).bind
  intro rest
  exact .pure (starts_joinChain first rest)

theorem exprList (mode : Mode) : Takes [] (g.exprList mode) fun es => (exprsLayout es).starts := by
  simp only [starts_exprsLayout]
  exact takes_commaSep1 (h.expr mode)

end Grammar.InOrder

end CallAtlas.Source
