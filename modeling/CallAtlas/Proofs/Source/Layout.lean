import CallAtlas.Source.Tree
import Mathlib.Data.List.Pairwise
import Mathlib.Data.List.Perm.Basic

/-!
# How function literals lie in code

Lowering takes function literals out of the code they stand in, one after another. Which ones it
takes and in which order depends on a few places only: some parts of the code are skipped, and of
some pairs of parts the one that is written second is lowered first. A `Layout` keeps of a piece of
code just this, and with every literal the layout of its own code.

A layout has its literals in the order in which they are written (`written`), those that are lowered
in the order in which they are numbered (`numbered`), and those that are skipped (`dropped`).
Numbers follow the order of writing exactly if no pair of parts with literals in both is crossed
(`pairwise_numbered_iff`), and leave out nothing exactly if, besides, nothing is dropped
(`numbered_eq_written_iff`).
-/

set_option autoImplicit false

namespace CallAtlas.Source

/-- A function literal. -/
structure FuncLit where
  pos : Position
  params : List Entry
  results : List Entry
  body : List Stmt

/-- The function literals of a piece of code. -/
inductive Layout where
  | none
  /-- A literal, with the layout of its signature and body. -/
  | literal (lit : FuncLit) (inner : Layout)
  /-- A part that is not lowered. -/
  | skipped (part : Layout)
  /-- Two parts that are lowered in the order in which they are written. -/
  | seq (first second : Layout)
  /-- Two parts of which the first is lowered last. -/
  | crossed (first second : Layout)

namespace Layout

/-- Where the literals start, those inside of others included. -/
def starts : Layout → List Position
  | .none => []
  | .literal lit inner => lit.pos :: inner.starts
  | .skipped part => part.starts
  | .seq a b | .crossed a b => a.starts ++ b.starts

/-- The literals that are not inside of others, as they are written. -/
def written : Layout → List (FuncLit × Layout)
  | .none => []
  | .literal lit inner => [(lit, inner)]
  | .skipped part => part.written
  | .seq a b | .crossed a b => a.written ++ b.written

/-- The literals that are lowered, as they are numbered. -/
def numbered : Layout → List (FuncLit × Layout)
  | .none | .skipped _ => []
  | .literal lit inner => [(lit, inner)]
  | .seq a b => a.numbered ++ b.numbered
  | .crossed a b => b.numbered ++ a.numbered

/-- The literals that are not lowered. -/
def dropped : Layout → List (FuncLit × Layout)
  | .none | .literal _ _ => []
  | .skipped part => part.written
  | .seq a b | .crossed a b => a.dropped ++ b.dropped

/-- No two parts with literals that are lowered are crossed. -/
def uncrossed : Layout → Bool
  | .none | .literal _ _ | .skipped _ => true
  | .seq a b => a.uncrossed && b.uncrossed
  | .crossed a b =>
    (a.numbered.isEmpty || b.numbered.isEmpty) && (a.uncrossed && b.uncrossed)

/-! ## Numbers and places -/

theorem starts_eq (layout : Layout) :
    layout.starts = layout.written.flatMap fun p => p.1.pos :: p.2.starts := by
  induction layout with
  | none => rfl
  | literal lit inner _ => simp [starts, written]
  | skipped part ih => exact ih
  | seq a b iha ihb => rw [starts, written, List.flatMap_append, iha, ihb]
  | crossed a b iha ihb => rw [starts, written, List.flatMap_append, iha, ihb]

/-- Every literal is lowered or dropped. -/
theorem numbered_append_dropped_perm (layout : Layout) :
    (layout.numbered ++ layout.dropped).Perm layout.written := by
  induction layout with
  | none => exact .nil
  | literal lit inner _ => exact .refl _
  | skipped part _ => exact .refl _
  | seq a b iha ihb =>
    have hswap : (a.numbered ++ b.numbered ++ (a.dropped ++ b.dropped)).Perm
        (a.numbered ++ a.dropped ++ (b.numbered ++ b.dropped)) := by
      simp only [List.append_assoc]
      exact (List.perm_append_comm_assoc _ _ _).append_left _
    exact hswap.trans (iha.append ihb)
  | crossed a b iha ihb =>
    have hswap : (b.numbered ++ a.numbered ++ (a.dropped ++ b.dropped)).Perm
        (a.numbered ++ a.dropped ++ (b.numbered ++ b.dropped)) := by
      refine (List.perm_append_comm.append_right _).trans ?_
      simp only [List.append_assoc]
      exact (List.perm_append_comm_assoc _ _ _).append_left _
    exact hswap.trans (iha.append ihb)

theorem numbered_subset (layout : Layout) : layout.numbered ⊆ layout.written := by
  intro p hp
  exact layout.numbered_append_dropped_perm.subset (List.mem_append_left _ hp)

/-- If nothing is crossed, dropping literals is all that happens. -/
theorem numbered_sublist_written {layout : Layout} (h : layout.uncrossed = true) :
    layout.numbered.Sublist layout.written := by
  induction layout with
  | none => exact .slnil
  | literal lit inner _ => exact .refl _
  | skipped part _ => exact List.nil_sublist _
  | seq a b iha ihb =>
    simp only [uncrossed, Bool.and_eq_true] at h
    exact (iha h.1).append (ihb h.2)
  | crossed a b iha ihb =>
    simp only [uncrossed, Bool.and_eq_true, Bool.or_eq_true, List.isEmpty_iff] at h
    obtain ⟨hempty, ha, hb⟩ := h
    have hcomm : b.numbered ++ a.numbered = a.numbered ++ b.numbered := by
      rcases hempty with hempty | hempty
      · rw [hempty, List.append_nil, List.nil_append]
      · rw [hempty, List.append_nil, List.nil_append]
    rw [numbered, hcomm]
    exact (iha ha).append (ihb hb)

section Order

variable {R : FuncLit × Layout → FuncLit × Layout → Prop} (hasymm : ∀ p q, R p q → ¬ R q p)
include hasymm

/-- If literals are written in some order, the numbered ones are in this order exactly if nothing is
crossed. -/
theorem pairwise_numbered_iff {layout : Layout} (h : layout.written.Pairwise R) :
    layout.numbered.Pairwise R ↔ layout.uncrossed = true := by
  constructor
  · intro hnumbered
    induction layout with
    | none => rfl
    | literal lit inner _ => rfl
    | skipped part _ => rfl
    | seq a b iha ihb =>
      obtain ⟨ha, hb, _⟩ := List.pairwise_append.mp h
      obtain ⟨hna, hnb, _⟩ := List.pairwise_append.mp hnumbered
      rw [uncrossed, iha ha hna, ihb hb hnb]
      rfl
    | crossed a b iha ihb =>
      obtain ⟨ha, hb, hab⟩ := List.pairwise_append.mp h
      obtain ⟨hnb, hna, hba⟩ := List.pairwise_append.mp hnumbered
      -- one literal in each part would be written in one order and numbered in the other
      have hempty : a.numbered = [] ∨ b.numbered = [] := by
        by_contra hboth
        rw [not_or] at hboth
        obtain ⟨p, hp⟩ := List.exists_mem_of_ne_nil _ hboth.1
        obtain ⟨q, hq⟩ := List.exists_mem_of_ne_nil _ hboth.2
        exact hasymm p q (hab p (a.numbered_subset hp) q (b.numbered_subset hq)) (hba q hq p hp)
      simp only [uncrossed, Bool.and_eq_true, Bool.or_eq_true, List.isEmpty_iff]
      exact ⟨hempty, iha ha hna, ihb hb hnb⟩
  · intro huncrossed
    exact h.sublist (numbered_sublist_written huncrossed)

theorem numbered_eq_written_iff {layout : Layout} (h : layout.written.Pairwise R) :
    layout.numbered = layout.written ↔ layout.uncrossed = true ∧ layout.dropped = [] := by
  have hlength := layout.numbered_append_dropped_perm.length_eq
  rw [List.length_append] at hlength
  constructor
  · intro heq
    refine ⟨(pairwise_numbered_iff hasymm h).mp (heq ▸ h), List.eq_nil_of_length_eq_zero ?_⟩
    rw [heq] at hlength
    omega
  · rintro ⟨huncrossed, hdropped⟩
    apply (numbered_sublist_written huncrossed).eq_of_length
    simpa [hdropped] using hlength

end Order

end Layout

/-! ## The layout of code -/

mutual

def typeLayout : TypeExpr → Layout
  | .name _ | .qualified _ _ => .none
  | .pointer t | .slice t | .chan t | .paren t | .negated t => typeLayout t
  | .array length t => .seq (exprLayout length) (typeLayout t)
  | .map a b | .union a b => .seq (typeLayout a) (typeLayout b)
  | .func params results => .seq (entriesLayout params) (entriesLayout results)
  | .interface entries | .struct entries => entriesLayout entries
  | .generic base args => .seq (typeLayout base) (typesLayout args)

def typesLayout : List TypeExpr → Layout
  | [] => .none
  | t :: rest => .seq (typeLayout t) (typesLayout rest)

def entriesLayout : List Entry → Layout
  | [] => .none
  | .mk _ ty _ :: rest => .seq (typeLayout ty) (entriesLayout rest)

def exprLayout : Expr → Layout
  | .ident _ | .literal _ => .none
  | .selector e _ | .unary _ e | .paren e | .spread e => exprLayout e
  | .index a b | .binary a b => .seq (exprLayout a) (exprLayout b)
  | .slice e bounds => .seq (exprLayout e) (.skipped (exprsLayout bounds))
  -- the arguments are lowered before the function that is called
  | .call _ f types args =>
    .crossed (.seq (exprLayout f) (.skipped (typesLayout types))) (exprsLayout args)
  | .assert e t => .seq (exprLayout e) (.skipped (typeLayout t))
  | .convert t e => .seq (.skipped (typeLayout t)) (exprLayout e)
  | .composite t elems => .seq (.skipped (typeLayout t)) (exprsLayout elems)
  | .funcLit pos params results body =>
    .literal ⟨pos, params, results, body⟩
      (.seq (.skipped (.seq (entriesLayout params) (entriesLayout results))) (stmtsLayout body))
  | .type t => .skipped (typeLayout t)
  | .keyed key value => .seq (.skipped (exprLayout key)) (exprLayout value)
  | .elements elems => exprsLayout elems

def exprsLayout : List Expr → Layout
  | [] => .none
  | e :: rest => .seq (exprLayout e) (exprsLayout rest)

def stmtLayout : Stmt → Layout
  | .define names values => .seq (.skipped (exprsLayout names)) (exprsLayout values)
  | .assign targets values => .seq (exprsLayout targets) (exprsLayout values)
  | .var _ _ ty values | .const _ ty values =>
    .seq (.skipped (optionLayout ty)) (exprsLayout values)
  | .types specs => .skipped (specsLayout specs)
  | .ret values => exprsLayout values
  | .expr e | .test e => exprLayout e
  | .range names _ e => .seq (.skipped (exprsLayout names)) (exprLayout e)
  -- what is received is lowered before the targets that it is assigned to
  | .receive targets define e =>
    if define then .seq (.skipped (exprsLayout targets)) (exprLayout e)
    else .crossed (exprsLayout targets) (exprLayout e)
  | .send a b => .seq (exprLayout a) (exprLayout b)
  | .step e => .skipped (exprLayout e)
  | .compound parts => stmtsLayout parts
  | .typeSwitch init binding e cases =>
    .seq (stmtsLayout init) (.seq (.skipped (exprsLayout binding))
      (.seq (exprLayout e) (casesLayout cases)))

def optionLayout : Option TypeExpr → Layout
  | none => .none
  | some t => typeLayout t

def stmtsLayout : List Stmt → Layout
  | [] => .none
  | s :: rest => .seq (stmtLayout s) (stmtsLayout rest)

def casesLayout : List TypeCase → Layout
  | [] => .none
  | .mk types body :: rest =>
    .seq (.seq (.skipped (typesLayout types)) (stmtsLayout body)) (casesLayout rest)

def specsLayout : List TypeSpec → Layout
  | [] => .none
  | .mk _ _ params ty _ :: rest =>
    .seq (.seq (entriesLayout params) (typeLayout ty)) (specsLayout rest)

end

attribute [simp] Layout.starts typeLayout exprLayout stmtLayout optionLayout

/-- The layout inside of a function literal. -/
def FuncLit.layout (l : FuncLit) : Layout :=
  .seq (.skipped (.seq (entriesLayout l.params) (entriesLayout l.results))) (stmtsLayout l.body)

/-- The layout of a function or method: its signature is not lowered, its body is. -/
def FuncDecl.layout (d : FuncDecl) : Layout :=
  .seq (.skipped (.seq (entriesLayout ((d.receiver.map ReceiverDecl.entries).getD []))
    (.seq (entriesLayout d.typeParams) (.seq (entriesLayout d.params) (entriesLayout d.results)))))
    (stmtsLayout (d.body.getD []))

/-- The layout of a declaration. -/
def declLayout : Decl → Layout
  | .package _ | .imports _ => .none
  | .func d => d.layout
  | .stmt s => stmtLayout s

end CallAtlas.Source
