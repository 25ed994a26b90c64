import CallAtlas.Proofs.Build.Spelling
import CallAtlas.Proofs.Text
import Mathlib.Data.List.Basic

/-!
# Older constraints

An older constraint is a number of lines, each of which lists options between blanks; an option
lists tags between commas, and a tag may be negated. A file is built if on each line all tags of
some option are turned on. The newer form writes the same as one expression: the tags of an option
joined by `&&`, the options of a line by `||` and the lines by `&&`, with parentheses around each
option and each line.

The two forms are read in different ways, one by cutting texts and one by a grammar. Main statement:
a header with older lines allows the same platforms as a header with the newer line for them.
-/

set_option autoImplicit false

namespace CallAtlas.Build

/-! ## Rows -/

/-- Some things in order, of which there is at least one. -/
structure Row (α : Type) where
  first : α
  rest : List α

namespace Row

variable {α β : Type} (r : Row α)

def toList : List α := r.first :: r.rest

/-- The texts of all things with `sep` in between. -/
def join (sep : List β) (f : α → List β) : List β := sep.intercalate (r.toList.map f)

theorem join_eq (sep : List β) (f : α → List β) :
    r.join sep f = f r.first ++ r.rest.flatMap fun a => sep ++ f a := by
  obtain ⟨first, rest⟩ := r
  induction rest generalizing first with
  | nil => simp [join, toList]
  | cons a rest ih =>
    have hjoin : join ⟨a, rest⟩ sep f = sep.intercalate (f a :: rest.map f) := rfl
    simp only [join, toList, List.map_cons, List.intercalate_cons_cons]
    rw [← hjoin, ih]
    simp

theorem join_eq_foldl (sep : List β) (f : α → List β) :
    r.join sep f = r.rest.foldl (fun before a => before ++ (sep ++ f a)) (f r.first) := by
  rw [join_eq]
  generalize f r.first = before
  induction r.rest generalizing before with
  | nil => simp
  | cons a rest ih => simp [← ih]

theorem all_eq_foldl (p : α → Bool) :
    r.toList.all p = r.rest.foldl (fun v a => v && p a) (p r.first) := by
  rw [toList, List.all_cons]
  generalize p r.first = v
  induction r.rest generalizing v with
  | nil => simp
  | cons a rest ih => simp [← ih, Bool.and_assoc]

theorem any_eq_foldl (p : α → Bool) :
    r.toList.any p = r.rest.foldl (fun v a => v || p a) (p r.first) := by
  rw [toList, List.any_cons]
  generalize p r.first = v
  induction r.rest generalizing v with
  | nil => simp
  | cons a rest ih => simp [← ih, Bool.or_assoc]

end Row

/-! ## Tags, terms, choices and lines -/

namespace Legacy

/-- The name of a tag. -/
structure Tag where
  chars : List Char
  ne_nil : chars ≠ []
  valid : ∀ c ∈ chars, isTagChar c = true

/-- A tag, perhaps negated. -/
structure Term where
  negated : Bool
  tag : Tag

/-- Terms behind a gap of blanks. -/
structure Choice where
  gap : List Char
  terms : Row Term
  gap_ne_nil : gap ≠ []
  gap_blank : ∀ c ∈ gap, c = ' ' ∨ c = '\t'

/-- A line of an older constraint. -/
structure Line where
  choices : Row Choice

def Term.text (t : Term) : List Char := (if t.negated then ['!'] else []) ++ t.tag.chars

def Choice.text (o : Choice) : List Char := o.terms.join [','] Term.text

/-- What stands behind the mark of an older constraint. -/
def Line.text (l : Line) : List Char := l.choices.toList.flatMap fun o => o.gap ++ o.text

def enclosed (text : List Char) : List Char := '(' :: (text ++ [')'])

def Choice.expression (blanks : List Char) (o : Choice) : List Char :=
  o.terms.join (blanks ++ ['&', '&'] ++ blanks) Term.text

def Line.expression (blanks : List Char) (l : Line) : List Char :=
  l.choices.join (blanks ++ ['|', '|'] ++ blanks) fun o => enclosed (o.expression blanks)

/-- The same constraint in the newer form. -/
def expression (blanks : List Char) (lines : Row Line) : List Char :=
  lines.join (blanks ++ ['&', '&'] ++ blanks) fun l => enclosed (l.expression blanks)

def Term.holds (enabled : String → Bool) (t : Term) : Bool :=
  t.negated != enabled (String.ofList t.tag.chars)

def Line.holds (enabled : String → Bool) (l : Line) : Bool :=
  l.choices.toList.any fun o => o.terms.toList.all (Term.holds enabled)

end Legacy

/-! ## The newer form -/

theorem Spells.append {cs cs' : List Char} {ts ts' : List ConstraintToken} (h : Spells cs ts)
    (h' : Spells cs' ts') (hend : EndsTag cs') : Spells (cs ++ cs') (ts ++ ts') := by
  induction h with
  | nil => exact h'
  | blank hc _ ih => exact .blank hc ih
  | sign hsign _ ih =>
    rw [List.append_assoc]
    exact .sign hsign ih
  | tag hname hchars hends _ ih =>
    rw [List.append_assoc]
    exact .tag hname hchars (hends.append hend) ih

theorem Spells.blanks {blanks cs : List Char} {ts : List ConstraintToken}
    (hblanks : ∀ c ∈ blanks, c = ' ' ∨ c = '\t') (h : Spells cs ts) : Spells (blanks ++ cs) ts := by
  induction blanks with
  | nil => exact h
  | cons c blanks ih =>
    exact .blank (hblanks c List.mem_cons_self)
      (ih fun d hd => hblanks d (List.mem_cons_of_mem c hd))

section Expression

variable {blanks : List Char} (hblanks : ∀ c ∈ blanks, c = ' ' ∨ c = '\t')
include hblanks

/-- Neither a blank nor a sign goes on a tag. -/
theorem endsTag_operator {sign : List Char} {t : ConstraintToken} (hsign : (sign, t) ∈ signs)
    (cs : List Char) : EndsTag (blanks ++ sign ++ blanks ++ cs) := by
  intro c hc
  cases blanks with
  | nil =>
    simp only [signs, List.mem_cons, Prod.mk.injEq, List.not_mem_nil, or_false] at hsign
    rcases hsign with ⟨rfl, rfl⟩ | ⟨rfl, rfl⟩ | ⟨rfl, rfl⟩ | ⟨rfl, rfl⟩ | ⟨rfl, rfl⟩ <;>
      (rw [← Option.some.inj hc]; decide)
  | cons d blanks =>
    rw [← Option.some.inj hc]
    rcases hblanks d List.mem_cons_self with rfl | rfl <;> decide

theorem spells_join {α : Type} {f : α → List Char} {g : α → List ConstraintToken}
    (h : ∀ a, Spells (f a) (g a)) {sign : List Char} {t : ConstraintToken}
    (hsign : (sign, t) ∈ signs)
    (r : Row α) : Spells (r.join (blanks ++ sign ++ blanks) f) (r.join [t] g) := by
  rw [Row.join_eq, Row.join_eq]
  have hrest : ∀ as : List α,
      Spells (as.flatMap fun a => blanks ++ sign ++ blanks ++ f a)
        (as.flatMap fun a => [t] ++ g a) ∧
        EndsTag (as.flatMap fun a => blanks ++ sign ++ blanks ++ f a) := by
    intro as
    induction as with
    | nil => exact ⟨.nil, endsTag_nil⟩
    | cons a as ih =>
      have hoperand := (h a).append ih.1 ih.2
      have hoperator := Spells.blanks hblanks (.sign hsign (.blanks hblanks hoperand))
      constructor
      · simpa using hoperator
      · rw [List.flatMap_cons, List.append_assoc]
        exact endsTag_operator hblanks hsign _
  exact (h r.first).append (hrest r.rest).1 (hrest r.rest).2

omit hblanks in
theorem spells_enclosed {cs : List Char} {ts : List ConstraintToken} (h : Spells cs ts) :
    Spells (Legacy.enclosed cs) (.opening :: (ts ++ [.closing])) := by
  have hclosing : Spells ([')'] ++ []) [.closing] := .sign (by simp [signs]) .nil
  have hend : EndsTag [')'] := by
    intro c hc
    rw [← Option.some.inj hc]
    decide
  have hopening : Spells (['('] ++ (cs ++ [')'])) (.opening :: (ts ++ [.closing])) :=
    .sign (by simp [signs]) (h.append hclosing hend)
  exact hopening

end Expression

section Phrases

variable {α : Type} (r : Row α)

def AndPhrase.ofRow (f : α → UnaryPhrase) : AndPhrase :=
  r.rest.foldl (fun before a => .more before (f a)) (.one (f r.first))

def OrPhrase.ofRow (f : α → AndPhrase) : OrPhrase :=
  r.rest.foldl (fun before a => .more before (f a)) (.one (f r.first))

theorem AndPhrase.tokens_ofRow (f : α → UnaryPhrase) :
    (ofRow r f).tokens = r.join [.and] fun a => (f a).tokens := by
  rw [Row.join_eq_foldl]
  exact (List.foldl_hom AndPhrase.tokens fun before a => rfl).symm

theorem OrPhrase.tokens_ofRow (f : α → AndPhrase) :
    (ofRow r f).tokens = r.join [.or] fun a => (f a).tokens := by
  rw [Row.join_eq_foldl]
  exact (List.foldl_hom OrPhrase.tokens fun before a => rfl).symm

theorem AndPhrase.value_ofRow (enabled : String → Bool) (f : α → UnaryPhrase) :
    (ofRow r f).value enabled = r.toList.all fun a => (f a).value enabled := by
  rw [Row.all_eq_foldl]
  exact (List.foldl_hom (AndPhrase.value enabled) fun before a => rfl).symm

theorem OrPhrase.value_ofRow (enabled : String → Bool) (f : α → AndPhrase) :
    (ofRow r f).value enabled = r.toList.any fun a => (f a).value enabled := by
  rw [Row.any_eq_foldl]
  exact (List.foldl_hom (OrPhrase.value enabled) fun before a => rfl).symm

end Phrases

namespace Legacy

def Term.phrase (t : Term) : UnaryPhrase :=
  if t.negated then .not (.tag (String.ofList t.tag.chars)) else .tag (String.ofList t.tag.chars)

def Choice.phrase (o : Choice) : AndPhrase := .ofRow o.terms Term.phrase

def Line.phrase (l : Line) : OrPhrase := .ofRow l.choices fun o => .one (.group (.one o.phrase))

/-- The derivation of the newer form. -/
def phrase (lines : Row Line) : OrPhrase := .one (.ofRow lines fun l => .group l.phrase)

theorem spells_tag (tag : Tag) : Spells tag.chars [.tag (String.ofList tag.chars)] := by
  have hspells := Spells.tag tag.ne_nil tag.valid endsTag_nil .nil
  rwa [List.append_nil] at hspells

theorem Term.spells_text (t : Term) : Spells t.text t.phrase.tokens := by
  obtain ⟨negated, tag⟩ := t
  cases negated with
  | false => exact spells_tag tag
  | true =>
    have hspells : Spells (['!'] ++ tag.chars) [.not, .tag (String.ofList tag.chars)] :=
      .sign (by simp [signs]) (spells_tag tag)
    exact hspells

theorem Term.value_phrase (enabled : String → Bool) (t : Term) :
    t.phrase.value enabled = t.holds enabled := by
  obtain ⟨negated, tag⟩ := t
  cases negated <;> simp [Term.phrase, Term.holds, UnaryPhrase.value]

section

variable {blanks : List Char} (hblanks : ∀ c ∈ blanks, c = ' ' ∨ c = '\t')
include hblanks

theorem Choice.spells_expression (o : Choice) : Spells (o.expression blanks) o.phrase.tokens := by
  rw [Choice.phrase, AndPhrase.tokens_ofRow]
  exact spells_join hblanks Term.spells_text (by simp [signs]) o.terms

theorem Line.spells_expression (l : Line) : Spells (l.expression blanks) l.phrase.tokens := by
  rw [Line.phrase, OrPhrase.tokens_ofRow]
  exact spells_join hblanks (fun o => spells_enclosed (o.spells_expression hblanks))
    (by simp [signs]) l.choices

theorem spells_expression (lines : Row Line) :
    Spells (expression blanks lines) (phrase lines).tokens := by
  rw [phrase, OrPhrase.tokens, AndPhrase.tokens_ofRow]
  exact spells_join hblanks (fun l => spells_enclosed (l.spells_expression hblanks))
    (by simp [signs]) lines

end

theorem value_phrase (enabled : String → Bool) (lines : Row Line) :
    (phrase lines).value enabled = lines.toList.all (Line.holds enabled) := by
  simp only [phrase, OrPhrase.value, AndPhrase.value_ofRow, UnaryPhrase.value, Line.phrase,
    OrPhrase.value_ofRow, AndPhrase.value, Choice.phrase, Term.value_phrase]
  rfl

end Legacy

/-! ## The older form -/

theorem isTagChar_ne {c d : Char} (hc : isTagChar c = true) (hd : isTagChar d = false) : c ≠ d := by
  rintro rfl
  exact Bool.noConfusion (hc.symm.trans hd)

theorem isBlank_eq_false_of_isTagChar {c : Char} (hc : isTagChar c = true) :
    Text.isBlank c = false := by
  have hcodes : ∀ n ∈ List.range' 0x9 5 ++ [0x20, 0x85, 0xA0, 0x1680] ++ List.range' 0x2000 11 ++
      [0x2028, 0x2029, 0x202F, 0x205F, 0x3000], isTagChar (Char.ofNat n) = false := by
    decide +kernel
  by_contra hblank
  rw [Bool.not_eq_false] at hblank
  have hcode := hcodes c.toNat (by
    simp only [Text.isBlank, Bool.or_eq_true, Bool.and_eq_true,
      decide_eq_true_eq, beq_iff_eq] at hblank
    simp only [List.mem_append, List.mem_range'_1, List.mem_cons, List.not_mem_nil, or_false]
    omega)
  rw [Char.ofNat_toNat] at hcode
  exact Bool.noConfusion (hc.symm.trans hcode)

namespace Legacy

theorem Term.text_ne_nil (t : Term) : t.text ≠ [] := by simp [Term.text, t.tag.ne_nil]

theorem Term.mem_text {t : Term} {c : Char} (h : c ∈ t.text) : c = '!' ∨ isTagChar c = true := by
  rcases List.mem_append.mp h with hsign | htag
  · left
    split at hsign
    · exact List.mem_singleton.mp hsign
    · exact absurd hsign List.not_mem_nil
  · exact Or.inr (t.tag.valid c htag)

theorem Choice.mem_text {o : Choice} {c : Char} (h : c ∈ o.text) :
    c = ',' ∨ c = '!' ∨ isTagChar c = true := by
  rw [Choice.text, Row.join_eq] at h
  simp only [List.mem_append, List.mem_flatMap, List.mem_singleton] at h
  rcases h with h | ⟨t, _, h | h⟩
  · exact Or.inr (Term.mem_text h)
  · exact Or.inl h
  · exact Or.inr (Term.mem_text h)

theorem Choice.text_ne_nil (o : Choice) : o.text ≠ [] := by
  rw [Choice.text, Row.join_eq]
  simp [Term.text_ne_nil]

theorem Choice.isBlank_text (o : Choice) : ∀ c ∈ o.text, Text.isBlank c = false := by
  intro c hc
  rcases Choice.mem_text hc with rfl | rfl | htag
  · decide
  · decide
  · exact isBlank_eq_false_of_isTagChar htag

theorem Choice.isBlank_gap (o : Choice) : ∀ c ∈ o.gap, Text.isBlank c = true := by
  intro c hc
  rcases o.gap_blank c hc with rfl | rfl <;> decide

theorem Line.wordsOf_text (l : Line) : Text.wordsOf l.text = l.choices.toList.map Choice.text := by
  have hchoices : ∀ os : List Choice,
      Text.wordsOf (os.flatMap fun o => o.gap ++ o.text) = os.map Choice.text := by
    intro os
    induction os with
    | nil => rfl
    | cons o os ih =>
      -- the next choice begins with its gap
      have hnext : ∀ c, (os.flatMap fun o => o.gap ++ o.text).head? = some c →
          Text.isBlank c = true := by
        intro c hc
        cases os with
        | nil => cases hc
        | cons o' os =>
          obtain ⟨d, gap, hgap⟩ := List.exists_cons_of_ne_nil o'.gap_ne_nil
          rw [List.flatMap_cons, hgap] at hc
          rw [← Option.some.inj hc]
          exact o'.isBlank_gap d (by simp [hgap])
      rw [List.flatMap_cons, List.append_assoc, Text.wordsOf_blanks o.isBlank_gap,
        Text.wordsOf_word o.text_ne_nil o.isBlank_text hnext, ih, List.map_cons]
  exact hchoices l.choices.toList

theorem Choice.split_text (o : Choice) :
    Text.split ',' (String.ofList o.text) = o.terms.toList.map fun t => String.ofList t.text := by
  have hcomma : ∀ text ∈ o.terms.toList.map Term.text, ',' ∉ text := by
    intro text htext hmem
    obtain ⟨t, _, rfl⟩ := List.mem_map.mp htext
    rcases Term.mem_text hmem with h | h
    · exact absurd h (by decide)
    · exact isTagChar_ne h (by decide) rfl
  have hsplit := List.splitOn_intercalate ',' hcomma (by simp [Row.toList])
  rw [Text.split, String.toList_ofList, Text.splitBy_eq_splitOnP]
  have hpieces : o.text.splitOnP (· == ',') = o.terms.toList.map Term.text := hsplit
  rw [hpieces, List.map_map]
  rfl

end Legacy

namespace Platform

variable (p : Platform)

theorem allowsTerm_text (t : Legacy.Term) :
    p.allowsTerm (String.ofList t.text) = t.holds p.enables := by
  obtain ⟨negated, tag⟩ := t
  cases negated with
  | true =>
    have hstrip : Text.stripPrefix? "!" (String.ofList (Legacy.Term.text ⟨true, tag⟩)) =
        some (String.ofList tag.chars) := by
      rw [Text.stripPrefix?_eq_some_iff, String.toList_ofList]
      rfl
    simp [allowsTerm, hstrip, Legacy.Term.holds]
  | false =>
    have hstrip : Text.stripPrefix? "!" (String.ofList tag.chars) = none := by
      rw [Text.stripPrefix?_eq_none_iff, ← Bool.not_eq_true, Text.startsWith_iff]
      rintro ⟨rest, hrest⟩
      rw [String.toList_ofList] at hrest
      exact isTagChar_ne (tag.valid '!' (by simp [hrest])) (by decide) rfl
    simp [allowsTerm, hstrip, Legacy.Term.holds, Legacy.Term.text]

theorem allowsLine_text (l : Legacy.Line) :
    p.allowsLine (String.ofList l.text) = l.holds p.enables := by
  rw [allowsLine, String.toList_ofList, l.wordsOf_text, List.any_map]
  unfold Legacy.Line.holds
  congr 1
  funext o
  simp only [Function.comp, o.split_text, List.all_map]
  congr 1
  funext t
  exact p.allowsTerm_text t

end Platform

/-! ## Headers -/

/-- The text of a file, divided at its package clause. -/
structure SourceText where
  front : List String
  clause : String
  behind : List Char
  noBreak : ∀ line ∈ clause :: front, '\n' ∉ line.toList
  noClause : ∀ line ∈ front, Text.startsWith "package " (Text.trim line) = false
  isClause : Text.startsWith "package " (Text.trim clause) = true
  endsClause : ∀ c, behind.head? = some c → c = '\n'

namespace SourceText

variable (s : SourceText)

def text : String :=
  String.ofList (s.front.flatMap (fun line => line.toList ++ ['\n']) ++
    (s.clause.toList ++ s.behind))

/-- The lines with constraints in front of the package clause, without blanks at their ends. -/
def constraintLines : List String :=
  (s.front.map Text.trim).filter fun line =>
    Text.startsWith "//go:build" line || Text.startsWith "// +build" line

theorem clause_ne_nil : s.clause.toList ≠ [] := by
  intro hnil
  have hclause := s.isClause
  rw [Text.trim, hnil] at hclause
  exact absurd hclause (by decide)

theorem trim_clause_cons :
    ∃ lines, (Text.linesOf (s.clause.toList ++ s.behind)).map
      (fun line => Text.trim (String.ofList line)) = Text.trim s.clause :: lines := by
  have hbreak := s.noBreak s.clause List.mem_cons_self
  cases hbehind : s.behind with
  | nil =>
    refine ⟨[], ?_⟩
    rw [List.append_nil, Text.linesOf_of_none hbreak s.clause_ne_nil, List.map_singleton,
      String.ofList_toList]
  | cons c cs =>
    obtain rfl : c = '\n' := s.endsClause c (by simp [hbehind])
    refine ⟨(Text.linesOf cs).map fun line => Text.trim (String.ofList line), ?_⟩
    rw [Text.linesOf_append_cons hbreak, List.map_cons, Text.trim_dropSuffix, String.ofList_toList]

theorem headerLines_text : Platform.headerLines s.text = s.front.map Text.trim := by
  have hfront : ∀ line ∈ s.front, '\n' ∉ line.toList :=
    fun line hline => s.noBreak line (List.mem_cons_of_mem _ hline)
  obtain ⟨lines, hlines⟩ := s.trim_clause_cons
  rw [Platform.headerLines, text, String.toList_ofList, Text.map_trim_linesOf hfront, hlines,
    List.takeWhile_append_of_pos]
  · simp [s.isClause]
  · intro line hline
    obtain ⟨l, hl, rfl⟩ := List.mem_map.mp hline
    simp [s.noClause l hl]

theorem filterMap_constraintLines {mark : String}
    (hmark : mark = "//go:build" ∨ mark = "// +build") :
    (Platform.headerLines s.text).filterMap (Text.stripPrefix? mark) =
      s.constraintLines.filterMap (Text.stripPrefix? mark) := by
  rw [headerLines_text, constraintLines, List.filterMap_filter]
  apply List.filterMap_congr
  intro line _
  split
  · rfl
  · rename_i hno
    rw [Text.stripPrefix?_eq_none_iff]
    rcases hmark with rfl | rfl <;> simp_all

end SourceText

namespace Platform

variable (p : Platform) (s : SourceText)

theorem stripPrefix?_mark (mark : String) (cs : List Char) :
    Text.stripPrefix? mark (String.ofList (mark.toList ++ cs)) = some (String.ofList cs) := by
  rw [Text.stripPrefix?_eq_some_iff, String.toList_ofList]

theorem allowsHeader_newer {cs : List Char}
    (h : s.constraintLines = [String.ofList ("//go:build".toList ++ cs)]) :
    p.allowsHeader s.text = p.allowsExpression (String.ofList cs) := by
  have hfind : (headerLines s.text).findSome? (Text.stripPrefix? "//go:build") =
      some (String.ofList cs) := by
    rw [← List.head?_filterMap, s.filterMap_constraintLines (Or.inl rfl), h, List.filterMap_cons,
      stripPrefix?_mark]
    rfl
  simp only [allowsHeader, hfind]

theorem allowsHeader_older {texts : List (List Char)}
    (h : s.constraintLines = texts.map fun cs => String.ofList ("// +build".toList ++ cs)) :
    p.allowsHeader s.text = texts.all fun cs => p.allowsLine (String.ofList cs) := by
  have hmark : ∀ cs : List Char,
      Text.stripPrefix? "//go:build" (String.ofList ("// +build".toList ++ cs)) = none := by
    intro cs
    rw [Text.stripPrefix?_eq_none_iff, Text.startsWith]
    simp [List.isPrefixOf]
  have hfind : (headerLines s.text).findSome? (Text.stripPrefix? "//go:build") = none := by
    rw [← List.head?_filterMap, s.filterMap_constraintLines (Or.inl rfl), h, List.filterMap_map]
    simp only [Function.comp_def, hmark, List.filterMap_none, List.head?_nil]
  have hlines : (headerLines s.text).filterMap (Text.stripPrefix? "// +build") =
      texts.map String.ofList := by
    rw [s.filterMap_constraintLines (Or.inr rfl), h, List.filterMap_map]
    simp only [Function.comp_def, stripPrefix?_mark]
    exact congrFun List.filterMap_eq_map texts
  simp only [allowsHeader, hfind, hlines, List.all_map]
  rfl

/-- A file with older constraints is built for the same platforms as a file with the one newer
constraint that joins their terms, options and lines. -/
theorem legacy_lines_agree (lines : Row Legacy.Line) {blanks : List Char}
    (hblanks : ∀ c ∈ blanks, c = ' ' ∨ c = '\t') (older newer : SourceText)
    (holder : older.constraintLines =
      lines.toList.map fun l => String.ofList ("// +build".toList ++ l.text))
    (hnewer : newer.constraintLines =
      [String.ofList ("//go:build".toList ++ ' ' :: Legacy.expression blanks lines)]) :
    p.allowsHeader older.text = p.allowsHeader newer.text := by
  have htexts : older.constraintLines =
      (lines.toList.map Legacy.Line.text).map fun cs =>
          String.ofList ("// +build".toList ++ cs) := by
    rw [holder, List.map_map]
    rfl
  have htokens : constraintTokens (String.ofList (' ' :: Legacy.expression blanks lines)) =
      (Legacy.phrase lines).tokens := by
    rw [constraintTokens, String.toList_ofList]
    exact (Spells.blank (Or.inl rfl) (Legacy.spells_expression hblanks lines)).constraintTokensOf_eq
  rw [p.allowsHeader_older older htexts, p.allowsHeader_newer newer hnewer,
    p.allowsExpression_of_tokens htokens, Legacy.value_phrase, List.all_map]
  simp only [Function.comp_def, allowsLine_text]

end Platform

/-! Two lines of which the first has two options, in both forms. -/

namespace TwoLines

def linux : Legacy.Tag := ⟨"linux".toList, by simp, List.all_eq_true.mp (by decide +kernel)⟩

def cgo : Legacy.Tag := ⟨"cgo".toList, by simp, List.all_eq_true.mp (by decide +kernel)⟩

def lines : Row Legacy.Line :=
  ⟨⟨⟨⟨[' '], ⟨⟨false, linux⟩, [⟨true, cgo⟩]⟩, by simp, by simp⟩,
    [⟨[' ', '\t'], ⟨⟨true, linux⟩, []⟩, by simp, by simp⟩]⟩⟩,
    [⟨⟨⟨[' '], ⟨⟨false, cgo⟩, []⟩, by simp, by simp⟩, []⟩⟩]⟩

def older : SourceText where
  front := ["// +build linux,!cgo \t!linux  ", "// A comment.", "\t// +build cgo\r"]
  clause := "package x"
  behind := ['\n']
  noBreak := by decide +kernel
  noClause := by decide +kernel
  isClause := by decide +kernel
  endsClause := by simp

def newer : SourceText where
  front := ["//go:build ((linux && !cgo) || (!linux)) && ((cgo))", ""]
  clause := "package x"
  behind := []
  noBreak := by decide +kernel
  noClause := by decide +kernel
  isClause := by decide +kernel
  endsClause := by simp

end TwoLines

theorem Platform.legacy_lines_agree_twoLines :
    (TwoLines.older.constraintLines =
        TwoLines.lines.toList.map fun l => String.ofList ("// +build".toList ++ l.text)) ∧
      TwoLines.newer.constraintLines =
        [String.ofList ("//go:build".toList ++ ' ' :: Legacy.expression [' '] TwoLines.lines)] ∧
      Platform.host.allowsHeader TwoLines.older.text =
        Platform.host.allowsHeader TwoLines.newer.text := by
  have holder : TwoLines.older.constraintLines =
      TwoLines.lines.toList.map fun l => String.ofList ("// +build".toList ++ l.text) := by
    decide +kernel
  have hnewer : TwoLines.newer.constraintLines =
      [String.ofList ("//go:build".toList ++ ' ' :: Legacy.expression [' '] TwoLines.lines)] := by
    decide +kernel
  exact ⟨holder, hnewer, Platform.legacy_lines_agree Platform.host TwoLines.lines (by simp)
    TwoLines.older TwoLines.newer holder hnewer⟩

end CallAtlas.Build
