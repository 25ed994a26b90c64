import CallAtlas.Proofs.Source.Layout
import CallAtlas.Proofs.Source.Reading

/-!
# The syntax tree keeps the order of the text

The tree that is made of a text has the function literals in the order in which they are written, at
every depth: where they start is, in this order, among the places of the tokens that were taken.
This is proved for each rule of the language over any grammar whose rules have the property
(`Grammar.InOrder`), so it is kept from one level of the grammar to the next.

Main statement: the function literals of a file start at places that grow.
-/

set_option autoImplicit false

namespace CallAtlas.Source

/-! ## Where the literals of a list start -/

/-- Where the literals in the type of an entry start. -/
def Entry.starts : Entry → List Position
  | .mk _ ty _ => (typeLayout ty).starts

/-- Where the literals in a case start. -/
def TypeCase.starts : TypeCase → List Position
  | .mk types body => (typesLayout types).starts ++ (stmtsLayout body).starts

/-- Where the literals in a declaration of a type start. -/
def TypeSpec.starts : TypeSpec → List Position
  | .mk _ _ params ty _ => (entriesLayout params).starts ++ (typeLayout ty).starts

theorem starts_typesLayout (ts : List TypeExpr) :
    (typesLayout ts).starts = ts.flatMap fun t => (typeLayout t).starts := by
  induction ts with
  | nil => rfl
  | cons t rest ih => rw [typesLayout, Layout.starts, ih, List.flatMap_cons]

theorem starts_entriesLayout (es : List Entry) :
    (entriesLayout es).starts = es.flatMap Entry.starts := by
  induction es with
  | nil => rfl
  | cons e rest ih =>
    obtain ⟨names, ty, variadic⟩ := e
    rw [entriesLayout, Layout.starts, ih, List.flatMap_cons, Entry.starts]

theorem starts_exprsLayout (es : List Expr) :
    (exprsLayout es).starts = es.flatMap fun e => (exprLayout e).starts := by
  induction es with
  | nil => rfl
  | cons e rest ih => rw [exprsLayout, Layout.starts, ih, List.flatMap_cons]

theorem starts_stmtsLayout (ss : List Stmt) :
    (stmtsLayout ss).starts = ss.flatMap fun s => (stmtLayout s).starts := by
  induction ss with
  | nil => rfl
  | cons s rest ih => rw [stmtsLayout, Layout.starts, ih, List.flatMap_cons]

theorem starts_casesLayout (cs : List TypeCase) :
    (casesLayout cs).starts = cs.flatMap TypeCase.starts := by
  induction cs with
  | nil => rfl
  | cons c rest ih =>
    obtain ⟨types, body⟩ := c
    simp only [casesLayout, Layout.starts, ih, List.flatMap_cons, TypeCase.starts]

theorem starts_specsLayout (ss : List TypeSpec) :
    (specsLayout ss).starts = ss.flatMap TypeSpec.starts := by
  induction ss with
  | nil => rfl
  | cons s rest ih =>
    obtain ⟨line, name, params, ty, isAlias⟩ := s
    simp only [specsLayout, Layout.starts, ih, List.flatMap_cons, TypeSpec.starts]

attribute [simp] starts_typesLayout starts_entriesLayout starts_exprsLayout starts_stmtsLayout
  starts_casesLayout starts_specsLayout

/-! ## Types -/

/-- The rules of the grammar read what is written in its order. -/
structure Grammar.InOrder (g : Grammar) : Prop where
  type : ∀ lines, Takes [] (g.type lines) fun t => (typeLayout t).starts
  term : ∀ lines, Takes [] (g.term lines) fun t => (typeLayout t).starts
  expr : ∀ mode, Takes [] (g.expr mode) fun e => (exprLayout e).starts
  operand : ∀ mode, Takes [] (g.operand mode) fun e => (exprLayout e).starts
  elements : Takes [] g.elements fun es => (exprsLayout es).starts
  stmts : ∀ inCase, Takes [] (g.stmts inCase) fun ss => (stmtsLayout ss).starts
  stmt : ∀ inCase, Takes [] (g.stmt inCase) fun ss => (stmtsLayout ss).starts

/-- Where the literals in the type of an entry start, before names are told from types. -/
def RawEntry.starts : RawEntry → List Position
  | .lone ty _ | .named _ ty _ | .variadic _ ty => (typeLayout ty).starts

theorem flatMap_unnamed {pending : List (TypeExpr × List Token)}
    (h : ∀ x ∈ pending, (typeLayout x.1).starts = []) :
    ((pending.map RawEntry.unnamed).flatMap fun e => e.1.starts) = [] := by
  rw [List.flatMap_map, List.flatMap_eq_nil_iff]
  exact h

/-- Words that are told to be names had no literals. -/
theorem starts_groupEntries {names : List String} {pending : List (TypeExpr × List Token)}
    (h : ∀ x ∈ pending, (typeLayout x.1).starts = []) (raw : List RawEntry) :
    ((groupEntries names pending raw).flatMap fun e => e.1.starts) =
      raw.flatMap RawEntry.starts := by
  fun_induction groupEntries names pending raw with
  | case1 names pending => exact flatMap_unnamed h
  | case2 names pending n span rest ih =>
    apply ih
    intro x hx
    rcases List.mem_append.mp hx with hx | hx
    · exact h x hx
    · rw [List.mem_singleton.mp hx]
      rfl
  | case3 names pending ty span rest _ ih =>
    rw [List.flatMap_append, flatMap_unnamed h, List.flatMap_cons, ih (by simp)]
    rfl
  | case4 names pending n ty span rest ih =>
    rw [List.flatMap_cons, ih (by simp)]
    rfl
  | case5 names pending n ty rest ih =>
    rw [List.flatMap_append, flatMap_unnamed h, List.flatMap_cons, ih (by simp)]
    rfl

theorem starts_foldl_union (first : TypeExpr) (rest : List TypeExpr) :
    (typeLayout (rest.foldl TypeExpr.union first)).starts =
      (typeLayout first).starts ++ rest.flatMap fun t => (typeLayout t).starts := by
  induction rest generalizing first with
  | nil => simp
  | cons t rest ih => simp [ih]

namespace Grammar.InOrder

variable {g : Grammar} (h : g.InOrder)
include h

theorem rawEntry : Takes [] g.rawEntry RawEntry.starts := by
  apply Takes.orElse
  · apply Takes.skip (quiet_optionalOf (quiet_nameExcept _))
    intro name
    apply Takes.skip (quiet_sign _)
    intro _
    apply (h.type false).bind
    intro ty
    exact .pure (by simp [RawEntry.starts])
  apply Takes.orElse
  · apply Takes.skip (quiet_nameExcept _)
    intro name
    apply (takes_spanned (h.type false)).bind
    intro x
    apply Takes.skip (quiet_atSign _)
    intro comma
    apply Takes.skip (quiet_atSign _)
    intro paren
    apply Takes.skip (quiet_atSign _)
    intro bracket
    extract_lets closed
    split
    · exact .pure (by simp [RawEntry.starts])
    · exact .failure
  · apply (takes_spanned (h.type false)).bind
    intro x
    exact .pure (by simp [RawEntry.starts])

theorem spannedParams : Takes [] g.spannedParams fun es => es.flatMap fun e => e.1.starts := by
  apply Takes.skip (quiet_sign _)
  intro _
  apply (takes_commaList h.rawEntry).bind
  intro raw
  apply Takes.skip (quiet_sign _)
  intro _
  apply Takes.pure
  rw [starts_groupEntries (by simp)]
  exact List.Sublist.refl _

theorem params : Takes [] g.params fun es => (entriesLayout es).starts := by
  apply h.spannedParams.bind
  intro es
  exact .pure (by simp [List.flatMap_map])

theorem typeParams : Takes [] g.typeParams fun es => (entriesLayout es).starts := by
  apply Takes.skip (quiet_sign _)
  intro _
  apply (takes_commaSep1 h.rawEntry).bind
  intro raw
  apply Takes.skip (quiet_optionalSign _)
  intro _
  apply Takes.skip (quiet_sign _)
  intro _
  extract_lets entries
  split
  · exact .failure
  · apply Takes.pure
    rw [starts_entriesLayout, List.flatMap_map, starts_groupEntries (by simp)]
    exact List.Sublist.refl _

theorem typeArgs : Takes [] g.typeArgs fun ts => (typesLayout ts).starts := by
  apply Takes.skip (quiet_sign _)
  intro _
  apply (takes_commaSep1 (h.type false)).bind
  intro args
  apply Takes.skip (quiet_optionalSign _)
  intro _
  apply Takes.skip (quiet_sign _)
  intro _
  exact .pure (by simp)

theorem results (lines : Bool) :
    Takes [] (g.results lines) fun es => (entriesLayout es).starts := by
  apply Takes.skip (quiet_onLine _)
  intro here
  split
  · apply Takes.skip (quiet_atSign _)
    intro paren
    split
    · exact h.params
    · apply (h.type lines).optional
      · intro ty
        exact .pure (by simp [Entry.starts])
      · exact .pure (List.nil_sublist _)
  · exact .pure (List.nil_sublist _)

theorem namedType (lines : Bool) : Takes [] (g.namedType lines) fun t => (typeLayout t).starts := by
  apply Takes.skip (quiet_nameExcept _)
  intro first
  apply Takes.skip (quiet_atSignOn _ _)
  intro dot
  extract_lets args
  have hargs : ∀ base, (typeLayout base).starts = [] →
      Takes [] (args base) fun t => (typeLayout t).starts := by
    intro base hbase
    apply Takes.skip (quiet_atSignOn _ _)
    intro bracket
    split
    · apply h.typeArgs.optional
      · intro types
        exact .pure (by simp [hbase])
      · exact .pure (by simp [hbase])
    · exact .pure (by simp [hbase])
  split
  · apply Takes.skip (quiet_sign _)
    intro _
    apply Takes.skip quiet_anyName
    intro second
    exact .given (hargs _ rfl)
  · exact .given (hargs _ rfl)

theorem embeddedField : Takes [] g.embeddedField Entry.starts := by
  apply Takes.skip (quiet_optionalSign _)
  intro star
  apply (h.namedType true).bind
  intro ty
  apply Takes.pure
  cases star with
  | true => exact List.Sublist.refl _
  | false => exact List.Sublist.refl _

theorem field : Takes [] g.field Entry.starts := by
  have hembedded : Takes [] (do
      let entry ← g.embeddedField
      let t ← peek
      let closed := t.fresh || t.kind == .text || (← atSign ";") || (← atSign "\x7d")
      if closed then pure entry else failure) Entry.starts := by
    apply h.embeddedField.bind
    intro entry
    apply Takes.skip quiet_peek
    intro t
    apply Takes.skip (quiet_atSign _)
    intro semicolon
    apply Takes.skip (quiet_atSign _)
    intro brace
    extract_lets closed
    split
    · exact .pure (List.Sublist.refl _)
    · exact .failure
  have hnamed : Takes [] (do
      let names ← commaSep1 anyName
      let ty ← g.type true
      pure (Entry.mk names ty false)) Entry.starts := by
    apply Takes.skip (quiet_commaSep1 quiet_anyName)
    intro names
    apply (h.type true).bind
    intro ty
    exact .pure (List.Sublist.refl _)
  apply (hembedded.orElse hnamed).bind
  intro entry
  apply Takes.skip quiet_peek
  intro t
  split
  · apply Takes.skip quiet_advance
    intro _
    exact .pure (List.Sublist.refl _)
  · exact .pure (List.Sublist.refl _)

theorem structBody : Takes [] g.structBody fun es => (entriesLayout es).starts := by
  apply Takes.skip (quiet_sign _)
  intro _
  apply (takes_lineList1 h.field).optional
  · intro fields
    exact .skip (quiet_sign _) fun _ => .pure (by simp)
  · exact .skip (quiet_sign _) fun _ => .pure (List.nil_sublist _)

theorem member : Takes [] g.member Entry.starts := by
  apply Takes.orElse
  · apply Takes.skip (quiet_nameExcept _)
    intro name
    apply Takes.skip (quiet_onLine _)
    intro here
    split
    · apply h.params.bind
      intro params
      apply (h.results true).bind
      intro results
      exact .pure (List.Sublist.refl _)
    · exact .failure
  · apply Takes.skip (quiet_atSign _)
    intro paren
    split
    · exact .skip .failure fun _ => (h.type true).bind fun ty => .pure (List.Sublist.refl _)
    · exact (h.type true).bind fun ty => .pure (List.Sublist.refl _)

theorem interfaceBody : Takes [] g.interfaceBody fun es => (entriesLayout es).starts := by
  apply Takes.skip (quiet_sign _)
  intro _
  apply (takes_lineList1 h.member).optional
  · intro members
    exact .skip (quiet_sign _) fun _ => .pure (by simp)
  · exact .skip (quiet_sign _) fun _ => .pure (List.nil_sublist _)

theorem bracketType (lines : Bool) :
    Takes [] (g.bracketType lines) fun t => (typeLayout t).starts := by
  apply Takes.skip (quiet_sign _)
  intro _
  apply Takes.skip (quiet_optionalSign _)
  intro closed
  split
  · exact (h.type lines).bind fun elem => .pure (List.Sublist.refl _)
  · apply (h.expr .inner).bind
    intro length
    apply Takes.skip (quiet_sign _)
    intro _
    apply (h.type lines).bind
    intro elem
    exact .pure (List.Sublist.refl _)

theorem wordType (lines : Bool) : Takes [] (g.wordType lines) fun t => (typeLayout t).starts := by
  apply Takes.orElse
  · exact .skip (quiet_keyword _) fun _ =>
      h.structBody.bind fun fields => .pure (List.Sublist.refl _)
  apply Takes.orElse
  · exact .skip (quiet_keyword _) fun _ => h.interfaceBody.bind fun fields =>
      .pure (List.Sublist.refl _)
  apply Takes.orElse
  · apply Takes.skip (quiet_keyword _)
    intro _
    apply Takes.skip (quiet_sign _)
    intro _
    apply (h.type false).bind
    intro key
    apply Takes.skip (quiet_sign _)
    intro _
    apply (h.type lines).bind
    intro value
    exact .pure (List.Sublist.refl _)
  apply Takes.orElse
  · apply Takes.skip (quiet_keyword _)
    intro _
    apply Takes.skip (quiet_optionalSign _)
    intro _
    exact (h.term lines).bind fun elem => .pure (List.Sublist.refl _)
  · apply Takes.skip (quiet_keyword _)
    intro _
    apply h.params.bind
    intro params
    apply (h.results lines).bind
    intro results
    exact .pure (List.Sublist.refl _)

theorem termRule (lines : Bool) : Takes [] (g.termRule lines) fun t => (typeLayout t).starts := by
  apply Takes.skip quiet_peek
  intro t
  split
  · exact .skip (quiet_sign _) fun _ => (h.term lines).bind fun ty => .pure (List.Sublist.refl _)
  · exact .skip (quiet_sign _) fun _ => (h.term lines).bind fun ty => .pure (List.Sublist.refl _)
  · apply Takes.skip (quiet_sign _)
    intro _
    apply (h.type false).bind
    intro inner
    exact .skip (quiet_sign _) fun _ => .pure (List.Sublist.refl _)
  · exact h.bracketType lines
  · apply Takes.skip (quiet_sign _)
    intro _
    apply Takes.skip (quiet_keyword _)
    intro _
    exact (h.term lines).bind fun ty => .pure (List.Sublist.refl _)
  · split
    · exact h.wordType lines
    · exact h.namedType lines
  · exact .failure

theorem typeRule (lines : Bool) : Takes [] (g.typeRule lines) fun t => (typeLayout t).starts := by
  have hnext : Takes [] (do
      if ← onLine lines then
        sign "|"
        g.term lines
      else failure) fun t => (typeLayout t).starts := by
    apply Takes.skip (quiet_onLine _)
    intro here
    split
    · exact .skip (quiet_sign _) fun _ => h.term lines
    · exact .failure
  apply (h.term lines).bind
  intro first
  apply (takes_many hnext).bind
  intro rest
  apply Takes.pure
  rw [starts_foldl_union]
  exact List.Sublist.refl _

end Grammar.InOrder

end CallAtlas.Source
