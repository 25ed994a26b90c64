import CallAtlas.Proofs.Source.Order.Exprs
import CallAtlas.Proofs.Source.Positions
import CallAtlas.Source.File

/-!
# Statements and files keep the order of the text

With the rules for statements, each level of the grammar reads in order if the level below does
(`Grammar.InOrder.step`), so every level does. What a file declares is then in the order of its
tokens, and these stand at places that grow.

Main statement: the function literals of a file, at all depths, start at places that grow
(`pairwise_starts_of_parse?`).
-/

set_option autoImplicit false

namespace CallAtlas.Source

theorem flatMap_flatten {α β : Type} (D : α → List β) (lists : List (List α)) :
    lists.flatten.flatMap D = lists.flatMap fun list => list.flatMap D := by
  induction lists with
  | nil => rfl
  | cons list lists ih => rw [List.flatten_cons, List.flatMap_append, ih, List.flatMap_cons]

/-! ## Words, labels and jumps -/

namespace Grammar

theorem quiet_lineName : Quiet lineName :=
  quiet_peek.bind fun _ => quiet_anyName.bind fun _ => quiet_pure _

theorem quiet_label (inCase : Bool) : Quiet (label inCase) := by
  apply (quiet_nameExcept _).bind
  intro _
  apply (quiet_onLine _).bind
  intro here
  split
  · exact quiet_sign _
  · exact .failure

theorem takes_lastLabel (inCase : Bool) :
    Takes [] (lastLabel inCase) fun ss => (stmtsLayout ss).starts :=
  .skip (quiet_label inCase) fun _ => .pure (List.nil_sublist _)

theorem takes_jump : Takes [] jump fun s => (stmtLayout s).starts := by
  apply Takes.orElse
  · exact .skip (quiet_keyword _) fun _ => .pure (List.nil_sublist _)
  apply Takes.orElse
  · exact .skip (quiet_keyword _) fun _ => .skip quiet_anyName fun _ => .pure (List.nil_sublist _)
  · apply Takes.skip (.orElse (quiet_keyword _) (quiet_keyword _))
    intro _
    apply Takes.skip quiet_peek
    intro t
    split
    · exact .skip quiet_advance fun _ => .pure (List.nil_sublist _)
    · exact .pure (List.nil_sublist _)

namespace InOrder

variable {g : Grammar} (h : g.InOrder)
include h

/-! ## Declarations -/

theorem varSpec : Takes [] g.varSpec fun s => (stmtLayout s).starts := by
  apply Takes.skip quiet_peek
  intro t
  extract_lets line
  apply Takes.skip (quiet_commaSep1 quiet_anyName)
  intro names
  apply Takes.skip (quiet_optionalSign _)
  intro valued
  split
  · apply (h.exprList .statement).bind
    intro values
    exact .pure (by simp)
  · apply (h.type true).bind
    intro ty
    apply Takes.skip (quiet_atSignOn _ _)
    intro valued
    split
    · apply Takes.skip (quiet_sign _)
      intro _
      apply (h.exprList .statement).bind
      intro values
      exact .pure (by simp)
    · exact .pure (by simp)

theorem constSpec : Takes [] g.constSpec fun s => (stmtLayout s).starts := by
  apply Takes.skip (quiet_commaSep1 quiet_lineName)
  intro names
  refine Takes.optional
    (D := fun x : Option TypeExpr × List Expr => (optionLayout x.1).starts ++
      (exprsLayout x.2).starts)
    ?_ ?_ ?_
  · apply Takes.skip (quiet_onLine _)
    intro here
    split
    · apply Takes.skip (quiet_atSign _)
      intro untyped
      extract_lets withType
      have hvalues : ∀ ty, Takes (optionLayout ty).starts (withType ty)
          fun x => (optionLayout x.1).starts ++ (exprsLayout x.2).starts := by
        intro ty
        apply Takes.skip (quiet_sign _)
        intro _
        exact (h.exprList .statement).bind fun values => .pure (List.Sublist.refl _)
      split
      · exact .given (hvalues none)
      · apply (h.type false).bind
        intro ty
        exact .given (hvalues (some ty))
    · exact .failure
  · intro x
    exact .pure (List.Sublist.refl _)
  · exact .pure (List.nil_sublist _)

theorem typeSpec : Takes [] g.typeSpec TypeSpec.starts := by
  apply Takes.skip quiet_peek
  intro t
  extract_lets line
  apply Takes.skip quiet_anyName
  intro name
  apply Takes.skip (quiet_optionalSign _)
  intro isAlias
  split
  · exact (h.type true).bind fun ty => .pure (List.Sublist.refl _)
  apply Takes.orElse
  · exact (h.type true).bind fun ty => .pure (List.Sublist.refl _)
  · apply h.typeParams.bind
    intro params
    exact (h.type true).bind fun ty => .pure (List.Sublist.refl _)

theorem declaration : Takes [] g.declaration fun ss => (stmtsLayout ss).starts := by
  simp only [starts_stmtsLayout]
  apply Takes.orElse
  · exact .skip (quiet_keyword _) fun _ => takes_oneOrGroup h.varSpec
  apply Takes.orElse
  · exact .skip (quiet_keyword _) fun _ => takes_oneOrGroup h.constSpec
  · apply Takes.skip (quiet_keyword _)
    intro _
    apply (takes_oneOrGroup h.typeSpec).bind
    intro specs
    exact .pure (by simp)

/-! ## Headers, branches and loops -/

theorem simple (mode : Mode) : Takes [] (g.simple mode) fun s => (stmtLayout s).starts := by
  apply (h.expr mode).bind
  intro first
  refine Takes.bind (takes_many (D := fun e => (exprLayout e).starts) ?_) ?_
  · apply Takes.skip (quiet_onLine _)
    intro here
    split
    · exact .skip (quiet_sign _) fun _ => h.expr mode
    · exact .failure
  intro more
  apply Takes.skip quiet_peek
  intro t
  split
  · split
    · exact .pure (by simp)
    · exact .failure
  split
  · apply Takes.skip quiet_advance
    intro _
    apply (h.exprList mode).bind
    intro values
    exact .pure (by simp)
  split
  · apply Takes.skip quiet_advance
    intro _
    apply (h.exprList mode).bind
    intro values
    exact .pure (by simp)
  split
  · exact .failure
  split
  · exact .skip quiet_advance fun _ => .pure (by simp)
  split
  · apply Takes.skip quiet_advance
    intro _
    apply (h.expr mode).bind
    intro value
    exact .pure (by simp)
  · exact .pure (by simp)

theorem initializer : Takes [] g.initializer fun ss => (stmtsLayout ss).starts := by
  apply (h.simple .header).bind
  intro s
  exact .skip (quiet_sign _) fun _ => .pure (by simp)

theorem branchFrom (fuel : Nat) : Takes [] (g.branchFrom fuel) fun s => (stmtLayout s).starts := by
  induction fuel with
  | zero => exact .failure
  | succ fuel ih =>
    apply Takes.skip (quiet_keyword _)
    intro _
    apply (takes_optionalOf_getD h.initializer rfl).bind
    intro init?
    extract_lets init
    apply (h.expr .header).bind
    intro test
    apply h.block.bind
    intro body
    apply Takes.skip (quiet_atWord _)
    intro word
    apply Takes.skip (quiet_onLine _)
    intro here
    extract_lets withElse
    split
    · apply Takes.skip (quiet_keyword _)
      intro _
      apply Takes.skip (quiet_atWord _)
      intro again
      split
      · apply ih.bind
        intro other
        exact .given (.pure (by simp [init]))
      · apply h.block.bind
        intro other
        exact .given (.pure (by simp [init]))
    · exact .given (.pure (by simp [init]))

theorem branch : Takes [] g.branch fun s => (stmtLayout s).starts :=
  .skip quiet_get fun _ => h.branchFrom _

theorem rangeClause : Takes [] g.rangeClause fun s => (stmtLayout s).starts := by
  apply Takes.skip (quiet_atWord _)
  intro word
  split
  · apply Takes.skip (quiet_keyword _)
    intro _
    exact (h.expr .header).bind fun e => .pure (List.Sublist.refl _)
  · apply (h.exprList .header).bind
    intro names
    apply Takes.skip (quiet_optionalSign _)
    intro define
    have hrest : Takes (exprsLayout names).starts (do
        keyword "range"
        pure (Stmt.range names define (← g.expr .header))) fun s => (stmtLayout s).starts := by
      apply Takes.skip (quiet_keyword _)
      intro _
      exact (h.expr .header).bind fun e => .pure (List.Sublist.refl _)
    split
    · exact .skip (quiet_sign _) fun _ => hrest
    · exact hrest

theorem threeClauses : Takes [] g.threeClauses fun ss => (stmtsLayout ss).starts := by
  apply Takes.skip (quiet_atSign _)
  intro semicolon
  extract_lets withInit
  apply Takes.unless
  · exact h.simple .header
  intro init
  apply Takes.skip (quiet_sign _)
  intro _
  apply Takes.skip (quiet_atSign _)
  intro semicolon
  extract_lets withTest
  apply Takes.unless (E := fun s => (stmtLayout s).starts)
  · exact h.expr .header
  intro test
  apply Takes.skip (quiet_sign _)
  intro _
  apply Takes.skip (quiet_atSign _)
  intro brace
  extract_lets withUpdate
  apply Takes.unless
  · exact h.simple .header
  intro update
  exact .pure (by simp)

theorem loop : Takes [] g.loop fun s => (stmtLayout s).starts := by
  apply Takes.skip (quiet_keyword _)
  intro _
  apply Takes.skip (quiet_atSign _)
  intro brace
  extract_lets withHeader
  have hbody : ∀ header, Takes (stmtsLayout header).starts (withHeader header)
      fun s => (stmtLayout s).starts := by
    intro header
    apply h.block.bind
    intro body
    exact .pure (by simp)
  split
  · exact .given (hbody [])
  · refine Takes.andThen ?_ hbody
    apply Takes.orElse
    · exact h.rangeClause.bind fun s => .pure (by simp)
    apply Takes.orElse
    · exact h.threeClauses
    · exact (h.expr .header).bind fun e => .pure (by simp)

/-! ## Cases -/

theorem defaultBody : Takes [] g.defaultBody fun ss => (stmtsLayout ss).starts := by
  apply Takes.skip (quiet_keyword _)
  intro _
  exact .skip (quiet_sign _) fun _ => h.stmts true

theorem switchCase : Takes [] g.switchCase fun s => (stmtLayout s).starts := by
  apply Takes.orElse
  · apply Takes.skip (quiet_keyword _)
    intro _
    apply (h.exprList .inner).bind
    intro values
    apply Takes.skip (quiet_sign _)
    intro _
    apply (h.stmts true).bind
    intro body
    exact .pure (by simp [List.flatMap_map])
  · exact h.defaultBody.bind fun body => .pure (List.Sublist.refl _)

theorem valueSwitch : Takes [] g.valueSwitch fun s => (stmtLayout s).starts := by
  apply Takes.skip (quiet_keyword _)
  intro _
  apply (takes_optionalOf_getD h.initializer rfl).bind
  intro init?
  extract_lets init
  apply Takes.skip (quiet_atSign _)
  intro brace
  apply Takes.unless (E := fun s => (stmtLayout s).starts)
  · exact h.expr .header
  intro value
  apply Takes.skip (quiet_sign _)
  intro _
  apply (takes_many h.switchCase).bind
  intro cases
  exact .skip (quiet_sign _) fun _ => .pure (by simp [init])

theorem typeCase : Takes [] g.typeCase TypeCase.starts := by
  apply Takes.orElse
  · apply Takes.skip (quiet_keyword _)
    intro _
    apply (takes_commaSep1 (h.type false)).bind
    intro types
    apply Takes.skip (quiet_sign _)
    intro _
    apply (h.stmts true).bind
    intro body
    exact .pure (by simp [TypeCase.starts])
  · exact h.defaultBody.bind fun body => .pure (List.Sublist.refl _)

theorem typeSwitch : Takes [] g.typeSwitch fun s => (stmtLayout s).starts := by
  apply Takes.skip (quiet_keyword _)
  intro _
  apply (takes_optionalOf_getD h.initializer rfl).bind
  intro init?
  extract_lets init
  refine Takes.bind (takes_optionalOf_getD (D := fun es => (exprsLayout es).starts) ?_ rfl) ?_
  · apply (h.exprList .header).bind
    intro names
    exact .skip (quiet_sign _) fun _ => .pure (List.Sublist.refl _)
  intro binding
  apply (h.expr _).bind
  intro value
  apply Takes.skip (quiet_sign _)
  intro _
  apply Takes.skip (quiet_sign _)
  intro _
  apply Takes.skip (quiet_keyword _)
  intro _
  apply Takes.skip (quiet_sign _)
  intro _
  apply Takes.skip (quiet_sign _)
  intro _
  apply (takes_many h.typeCase).bind
  intro cases
  exact .skip (quiet_sign _) fun _ => .pure (by simp [init])

/-- What is received is read behind its targets, whether these are defined or assigned to. -/
theorem received (targets : List Expr) (define : Bool) :
    Takes (exprsLayout targets).starts (g.expr .inner >>= fun e => pure (.receive targets define e))
      fun s => (stmtLayout s).starts := by
  apply (h.expr .inner).bind
  intro e
  apply Takes.pure
  cases define with
  | true => exact List.Sublist.refl _
  | false => exact List.Sublist.refl _

theorem communication : Takes [] g.communication fun s => (stmtLayout s).starts := by
  apply (h.exprList .inner).andThen
  intro first
  split
  · rename_i e
    apply Takes.skip (quiet_optionalSign _)
    intro send
    split
    · apply (h.expr .inner).bind
      intro value
      exact .pure (by simp)
    apply Takes.skip (quiet_optionalSign _)
    intro define
    split
    · exact h.received [e] true
    apply Takes.skip (quiet_optionalSign _)
    intro assign
    split
    · exact h.received [e] false
    · exact .pure (by simp [exprsLayout])
  · apply Takes.skip (quiet_optionalSign _)
    intro define
    split
    · exact h.received first true
    · exact .skip (quiet_sign _) fun _ => h.received first false

theorem commCase : Takes [] g.commCase fun s => (stmtLayout s).starts := by
  apply Takes.orElse
  · apply Takes.skip (quiet_keyword _)
    intro _
    apply h.communication.bind
    intro comm
    apply Takes.skip (quiet_sign _)
    intro _
    apply (h.stmts true).bind
    intro body
    exact .pure (List.Sublist.refl _)
  · exact h.defaultBody.bind fun body => .pure (List.Sublist.refl _)

theorem select : Takes [] g.select fun s => (stmtLayout s).starts := by
  apply Takes.skip (quiet_keyword _)
  intro _
  apply Takes.skip (quiet_sign _)
  intro _
  apply (takes_many h.commCase).bind
  intro cases
  exact .skip (quiet_sign _) fun _ => .pure (by simp)

/-! ## Statements -/

omit h in
/-- A statement as a list of one. -/
theorem single {p : Parser Stmt} (hp : Takes [] p fun s => (stmtLayout s).starts) :
    Takes [] (p >>= fun s => pure [s]) fun ss => (stmtsLayout ss).starts :=
  hp.bind fun _ => .pure (by simp)

theorem stmtRule (inCase : Bool) :
    Takes [] (g.stmtRule inCase) fun ss => (stmtsLayout ss).starts := by
  have hexpr : Takes [] (g.expr .statement >>= fun e => pure [Stmt.expr e])
      fun ss => (stmtsLayout ss).starts :=
    (h.expr .statement).bind fun _ => .pure (by simp)
  apply Takes.skip quiet_peek
  intro t
  split
  · exact .skip (quiet_sign _) fun _ => .pure (List.nil_sublist _)
  · exact h.block.bind fun body => .pure (by simp)
  · exact h.declaration
  · exact h.declaration
  · exact h.declaration
  · apply Takes.skip (quiet_keyword _)
    intro _
    refine Takes.bind (takes_optionalOf_getD (D := fun es => (exprsLayout es).starts) ?_ rfl) ?_
    · apply Takes.skip (quiet_onLine _)
      intro here
      split
      · exact h.exprList .statement
      · exact .failure
    intro values
    exact .pure (by simp)
  · exact .skip (quiet_keyword _) fun _ => hexpr
  · exact .skip (quiet_keyword _) fun _ => hexpr
  · exact single h.branch
  · exact single h.loop
  · exact (single h.typeSwitch).orElse (single h.valueSwitch)
  · exact single h.select
  · exact single takes_jump
  · exact single takes_jump
  · exact single takes_jump
  · exact single takes_jump
  · split
    · exact .failure
    · refine Takes.optional (quiet_label inCase) ?_ ?_
      · intro _
        exact (h.stmt inCase).bind fun body => .pure (by simp)
      · exact single (h.simple .statement)

theorem stmtsRule (inCase : Bool) :
    Takes [] (g.stmtsRule inCase) fun ss => (stmtsLayout ss).starts := by
  have hlast := takes_optionalOf_getD (takes_lastLabel inCase) rfl
  apply (h.stmt inCase).optional
  · intro first
    apply (takes_many (.skip quiet_terminator fun _ => h.stmt inCase)).bind
    intro rest
    apply Takes.skip
    · apply quiet_optionalOf
      exact quiet_terminator.bind fun _ => hlast.quiet.bind fun _ => quiet_pure _
    intro _
    exact .pure (by simp [flatMap_flatten])
  · exact hlast.bind fun last => .pure (List.Sublist.refl _)

theorem step : g.step.InOrder where
  type := h.typeRule
  term := h.termRule
  expr := h.exprRule
  operand := h.operandRule
  elements := h.elementsRule
  stmts := h.stmtsRule
  stmt := h.stmtRule

end InOrder

theorem inOrder_bottom : bottom.InOrder where
  type _ := .failure
  term _ := .failure
  expr _ := .failure
  operand _ := .failure
  elements := .failure
  stmts _ := .failure
  stmt _ := .failure

theorem inOrder_upTo (n : Nat) : (upTo n).InOrder := by
  induction n with
  | zero => exact inOrder_bottom
  | succ n ih => exact ih.step

/-! ## Files -/

theorem quiet_importSpec : Quiet importSpec := by
  apply quiet_peek.bind
  intro t
  extract_lets line
  apply (quiet_optionalOf (.orElse quiet_anyName ((quiet_sign _).bind fun _ => quiet_pure _))).bind
  intro name
  exact quiet_textLiteral.bind fun _ => quiet_pure _

theorem takes_imports : Takes [] imports fun d => (declLayout d).starts := by
  apply Takes.skip (quiet_keyword _)
  intro _
  apply Takes.skip (quiet_optionalSign _)
  intro group
  split
  · apply Takes.skip (quiet_optionalOf (takes_lineList1 quiet_importSpec).quiet)
    intro specs
    exact .skip (quiet_sign _) fun _ => .pure (List.nil_sublist _)
  · exact .skip quiet_importSpec fun _ => .pure (List.nil_sublist _)

namespace InOrder

variable {g : Grammar} (h : g.InOrder)
include h

theorem funcTail (pos : Position) (name : String) (receiver : Option ReceiverDecl)
    (typeParams : List Entry) :
    Takes ((entriesLayout ((receiver.map ReceiverDecl.entries).getD [])).starts ++
        (entriesLayout typeParams).starts)
      (g.funcTail pos name receiver typeParams) fun d => (declLayout d).starts := by
  apply h.params.bind
  intro params
  apply (h.results true).bind
  intro results
  apply Takes.skip (quiet_atSignOn _ _)
  intro brace
  extract_lets withBody
  split
  · apply h.block.bind
    intro body
    exact .given (.pure (by simp [declLayout, FuncDecl.layout]))
  · exact .given (.pure (by simp [declLayout, FuncDecl.layout]))

theorem function : Takes [] g.function fun d => (declLayout d).starts := by
  apply Takes.skip quiet_peek
  intro start
  apply Takes.skip (quiet_keyword _)
  intro _
  apply Takes.skip (quiet_atSign _)
  intro paren
  split
  · apply h.spannedParams.bind
    intro spanned
    extract_lets entries first typeText
    apply Takes.skip quiet_anyName
    intro name
    have htail := h.funcTail start.pos name (some { entries, typeText }) []
    simpa [entries, List.flatMap_map] using htail
  · apply Takes.skip quiet_anyName
    intro name
    apply Takes.skip (quiet_atSign _)
    intro bracket
    extract_lets withParams
    split
    · exact h.typeParams.andThen fun params => h.funcTail start.pos name none params
    · exact .given (h.funcTail start.pos name none [])

theorem topDeclaration : Takes [] g.topDeclaration fun d => (declLayout d).starts := by
  apply Takes.orElse
  · exact .skip (quiet_keyword _) fun _ => .skip quiet_anyName fun _ => .pure (List.nil_sublist _)
  · exact takes_imports.orElse h.function

theorem topItem : Takes [] g.topItem fun ds => ds.flatMap fun d => (declLayout d).starts := by
  apply Takes.orElse
  · apply h.topDeclaration.bind
    intro decl
    apply Takes.skip quiet_peek
    intro t
    extract_lets ended
    have hended : Takes (declLayout decl).starts (ended ())
        fun ds => ds.flatMap fun d => (declLayout d).starts := .pure (by simp)
    split
    · exact hended
    · exact .skip quiet_terminator fun _ => hended
  · apply Takes.skip (quiet_atWord _)
    intro package
    apply Takes.skip (quiet_atWord _)
    intro imported
    extract_lets item
    have hitem : Takes [] (item ()) fun ds => ds.flatMap fun d => (declLayout d).starts := by
      apply (h.stmt false).bind
      intro stmts
      exact .skip quiet_terminator fun _ => .pure (by simp [List.flatMap_map, declLayout])
    split
    · exact .skip .failure fun _ => hitem
    · exact hitem

theorem file : Takes [] g.file fun ds => ds.flatMap fun d => (declLayout d).starts := by
  refine Takes.bind (takes_many (D := fun ds => ds.flatMap fun d => (declLayout d).starts) ?_) ?_
  · apply Takes.skip quiet_peek
    intro t
    extract_lets item
    split
    · exact .skip .failure fun _ => h.topItem
    · exact h.topItem
  intro items
  apply Takes.skip quiet_peek
  intro t
  split
  · exact .pure (by simp [flatMap_flatten])
  · exact .failure

end InOrder

end Grammar

/-- The function literals of a file, those inside of others included, start at places that grow. -/
theorem pairwise_starts_of_parse? {source : String} {decls : List Decl}
    (h : parse? source = some decls) :
    (decls.flatMap fun d => (declLayout d).starts).Pairwise Position.Before := by
  obtain ⟨ts, hts, hread⟩ := Option.bind_eq_some_iff.mp h
  obtain ⟨⟨decls', rest⟩, hrun, rfl⟩ := Option.map_eq_some_iff.mp hread
  obtain ⟨taken, htaken, hstarts⟩ := (Grammar.inOrder_upTo _).file ts decls' rest hrun
  have htokens := pairwise_tokens? hts
  rw [htaken] at htokens
  exact (List.pairwise_append.mp htokens).1.sublist hstarts

end CallAtlas.Source
