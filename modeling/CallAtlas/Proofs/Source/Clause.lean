import CallAtlas.Proofs.Source.Words
import CallAtlas.Source.File

/-!
# The package clause that is parsed

A file that begins with the word of a package clause has a name behind that word, and its first
declaration is the clause with that name: every other way to read the first item of a file fails on
the word. In the text of the file the word stands behind a gap, in front of which there may be a
byte order mark, and the name stands behind another gap.

Main statements: `ClausedOnce.exists` on the tokens and declarations,
`exists_of_tokens?_words` on the text.
-/

set_option autoImplicit false

namespace CallAtlas

namespace Source

/-! ## Parsers that begin with the clause -/

section Runs

variable {α : Type} {t : Token} {ts : List Token}

theorem keyword_run_of_eq {w : String} (hkind : t.kind = .word) (htext : t.text = w) :
    (keyword w).run (t :: ts) = some ((), ts) := by
  have hat : (atWord w).run (t :: ts) = some (true, t :: ts) := by
    change some (t.kind == .word && t.text == w, t :: ts) = _
    simp [hkind, htext]
  rw [keyword, StateT.run_bind, hat]
  rfl

theorem keyword_run_of_ne {w : String} (htext : t.text ≠ w) : (keyword w).run (t :: ts) = none := by
  have hat : (atWord w).run (t :: ts) = some (false, t :: ts) := by
    change some (t.kind == .word && t.text == w, t :: ts) = _
    simp [htext]
  rw [keyword, StateT.run_bind, hat]
  rfl

theorem orElse_run_eq_some {p q : Parser α} {a : α} {rest : List Token}
    (h : (p <|> q).run ts = some (a, rest)) :
    p.run ts = some (a, rest) ∨ p.run ts = none ∧ q.run ts = some (a, rest) := by
  have hor : (p.run ts <|> q.run ts) = some (a, rest) := h
  cases hp : p.run ts with
  | none =>
    rw [hp] at hor
    exact Or.inr ⟨rfl, hor⟩
  | some r =>
    rw [hp] at hor
    exact Or.inl hor

/-- Some parser goes on from where another has come to. -/
theorem bind_run_eq_some {β : Type} {p : Parser α} {f : α → Parser β} {b : β} {rest : List Token}
    (h : (p >>= f).run ts = some (b, rest)) :
    ∃ a mid, p.run ts = some (a, mid) ∧ (f a).run mid = some (b, rest) := by
  rw [StateT.run_bind] at h
  obtain ⟨⟨a, mid⟩, ha, hb⟩ := Option.bind_eq_some_iff.mp h
  exact ⟨a, mid, ha, hb⟩

theorem anyName_run_eq_some {name : String} {rest : List Token}
    (h : anyName.run ts = some (name, rest)) :
    ∃ t, ts = t :: rest ∧ t.kind = .word ∧ t.text = name := by
  obtain ⟨t, mid, htake, hname⟩ := bind_run_eq_some h
  cases ts with
  | nil => cases htake
  | cons t' more =>
    cases htake
    split at hname
    · rename_i hkind
      cases hname
      exact ⟨t, rfl, by simpa using hkind, rfl⟩
    · cases hname

variable {g : Grammar}

/-- Behind the word of a package clause stands its name, and nothing else begins with that word. -/
theorem topDeclaration_run {decl : Decl} {rest : List Token} (hkind : t.kind = .word)
    (htext : t.text = "package") (h : g.topDeclaration.run (t :: ts) = some (decl, rest)) :
    ∃ name more, ts = name :: more ∧ name.kind = .word ∧ decl = .package name.text := by
  rcases orElse_run_eq_some h with h | ⟨_, h⟩
  · obtain ⟨_, mid, hkeyword, h⟩ := bind_run_eq_some h
    cases (keyword_run_of_eq hkind htext).symm.trans hkeyword
    obtain ⟨_, _, hname, h⟩ := bind_run_eq_some h
    obtain ⟨name, rfl, hword, rfl⟩ := anyName_run_eq_some hname
    cases h
    exact ⟨name, _, rfl, hword, rfl⟩
  · rcases orElse_run_eq_some h with h | ⟨_, h⟩
    · obtain ⟨_, _, hkeyword, _⟩ := bind_run_eq_some h
      rw [keyword_run_of_ne (by rw [htext]; decide)] at hkeyword
      cases hkeyword
    · obtain ⟨_, _, hpeek, h⟩ := bind_run_eq_some h
      cases hpeek
      obtain ⟨_, _, hkeyword, _⟩ := bind_run_eq_some h
      rw [keyword_run_of_ne (by rw [htext]; decide)] at hkeyword
      cases hkeyword

theorem topItem_run {items : List Decl} {rest : List Token} (hkind : t.kind = .word)
    (htext : t.text = "package") (h : g.topItem.run (t :: ts) = some (items, rest)) :
    ∃ name more, ts = name :: more ∧ name.kind = .word ∧ items = [.package name.text] := by
  rcases orElse_run_eq_some h with h | ⟨_, h⟩
  · obtain ⟨decl, _, hdecl, h⟩ := bind_run_eq_some h
    obtain ⟨name, more, rfl, hname, rfl⟩ := topDeclaration_run hkind htext hdecl
    obtain ⟨_, _, _, h⟩ := bind_run_eq_some h
    refine ⟨name, more, rfl, hname, ?_⟩
    split at h
    · cases h
      rfl
    · obtain ⟨_, _, _, h⟩ := bind_run_eq_some h
      cases h
      rfl
  · have hat : (atWord "package").run (t :: ts) = some (true, t :: ts) := by
      change some (t.kind == .word && t.text == "package", t :: ts) = _
      simp [hkind, htext]
    obtain ⟨_, _, hword, h⟩ := bind_run_eq_some h
    cases hat.symm.trans hword
    obtain ⟨_, _, _, h⟩ := bind_run_eq_some h
    change (failure >>= _ : Parser (List Decl)).run _ = _ at h
    obtain ⟨_, _, hfailure, _⟩ := bind_run_eq_some h
    cases hfailure

theorem optionalOf_run_eq_some {p : Parser α} {o : Option α} {rest : List Token}
    (h : (optionalOf p).run ts = some (o, rest)) :
    (∃ a, o = some a ∧ p.run ts = some (a, rest)) ∨ o = none ∧ rest = ts := by
  rcases orElse_run_eq_some h with h | ⟨_, h⟩
  · obtain ⟨a, _, ha, h⟩ := bind_run_eq_some h
    cases h
    exact Or.inl ⟨a, rfl, ha⟩
  · cases h
    exact Or.inr ⟨rfl, rfl⟩

/-- A file whose first token is the word of a package clause begins with that clause. -/
theorem file_run {decls : List Decl} {rest : List Token} (hkind : t.kind = .word)
    (htext : t.text = "package") (h : g.file.run (t :: ts) = some (decls, rest)) :
    ∃ name more later, ts = name :: more ∧ name.kind = .word ∧
      decls = .package name.text :: later := by
  have hstart : (t.kind == .finish) = false := by
    rw [hkind]
    rfl
  obtain ⟨items, mid, hitems, h⟩ := bind_run_eq_some h
  obtain ⟨_, _, hget, hitems⟩ := bind_run_eq_some hitems
  cases hget
  obtain ⟨first, mid', hfirst, hitems⟩ := bind_run_eq_some hitems
  rcases optionalOf_run_eq_some hfirst with ⟨item, rfl, hitem⟩ | ⟨rfl, rfl⟩
  · obtain ⟨_, _, hpeek, hitem⟩ := bind_run_eq_some hitem
    cases hpeek
    rw [hstart] at hitem
    obtain ⟨name, more, rfl, hname, rfl⟩ := topItem_run hkind htext hitem
    obtain ⟨others, _, _, hitems⟩ := bind_run_eq_some hitems
    cases hitems
    obtain ⟨_, _, _, h⟩ := bind_run_eq_some h
    split at h
    · cases h
      exact ⟨name, more, _, rfl, hname, rfl⟩
    · cases h
  -- nothing is read, and the file does not end there
  · cases hitems
    obtain ⟨_, _, hpeek, h⟩ := bind_run_eq_some h
    cases hpeek
    rw [hstart] at h
    cases h

end Runs

/-! ## The clause of a file -/

def Decl.isClause : Decl → Bool
  | .package _ => true
  | _ => false

/-- The file has one package clause and begins with it. -/
def ClausedOnce (source : String) : Prop :=
  (∃ t ∈ (tokens? source).bind List.head?, t.kind = .word ∧ t.text = "package") ∧
    ∃ decls ∈ parse? source, decls.countP Decl.isClause = 1

instance (source : String) : Decidable (ClausedOnce source) :=
  inferInstanceAs (Decidable ((∃ t ∈ (tokens? source).bind List.head?, _) ∧
    ∃ decls ∈ parse? source, _))

/-- The clause of a file is its first declaration, and its name the second token. -/
theorem ClausedOnce.exists {source : String} (h : ClausedOnce source) : ∃ t name ts decls,
    tokens? source = some (t :: name :: ts) ∧ t.kind = .word ∧ t.text = "package" ∧
      name.kind = .word ∧ parse? source = some (.package name.text :: decls) ∧
      decls.countP Decl.isClause = 0 := by
  obtain ⟨⟨t, ht, hkind, htext⟩, decls, hparse, honce⟩ := h
  obtain ⟨tokens, htokens, hhead⟩ := Option.bind_eq_some_iff.mp ht
  obtain ⟨ts, rfl⟩ := List.head?_eq_some_iff.mp hhead
  have hread := hparse
  rw [Option.mem_def, parse?, htokens] at hread
  obtain ⟨⟨_, rest⟩, hrun, rfl⟩ := Option.map_eq_some_iff.mp hread
  obtain ⟨name, more, later, rfl, hname, rfl⟩ := file_run hkind htext hrun
  refine ⟨t, name, more, later, htokens, hkind, htext, hname, hparse, ?_⟩
  rw [List.countP_cons_of_pos rfl] at honce
  exact Nat.succ.inj honce

/-- What may stand in front of the first token of a file: a gap, and in front of it a
byte order mark. -/
inductive Lead : List Char → Prop
  | gap {cs : List Char} (h : Gap cs) : Lead cs
  | marked {cs : List Char} (h : Gap cs) : Lead ('\ufeff' :: cs)

/-- The words of the package clause in the text of a file. -/
theorem exists_of_tokens?_words {source : String} {t t' : Token} {ts : List Token}
    (h : tokens? source = some (t :: t' :: ts)) (ht : t.kind = .word) (ht' : t'.kind = .word) :
    ∃ lead gap rest, source.toList = lead ++ (t.text.toList ++ (gap ++ (t'.text.toList ++ rest))) ∧
      Lead lead ∧ Gap gap ∧ gap ≠ [] ∧ (∃ c ∈ t'.text.toList.head?, Text.isIdentStart c = true) ∧
      ∀ c ∈ rest.head?, Text.isWordChar c = false := by
  obtain ⟨lead, tail, fuel, pos, hbody, hlead, _, hstop, hmore⟩ := exists_of_tokensFrom_word h ht
  obtain ⟨gap, rest, fuel', pos', rfl, hgap, hstart, hstop', hlast⟩ :=
    exists_of_tokensFrom_word hmore ht'
  have hne : gap ≠ [] := by
    rintro rfl
    -- the second word would have been a part of the first
    obtain ⟨c, hc, hidentifier⟩ := hstart
    have hhead : c ∈ ([] ++ (t'.text.toList ++ rest)).head? := by
      rw [List.nil_append, List.head?_append, Option.mem_def.mp hc]
      rfl
    have hpart := hstop c hhead
    rw [Text.isIdentContinue_of_isIdentStart hidentifier] at hpart
    cases hpart
  have hrest : ∀ c ∈ rest.head?, Text.isWordChar c = false := by
    intro c hc
    cases rest with
    | nil => cases hc
    | cons d rest =>
      obtain rfl : d = c := Option.some.inj hc
      exact isWordChar_of_tokensFrom hlast (hstop' d rfl)
  by_cases hmark : source.toList.head? = some '\ufeff'
  · rw [if_pos hmark] at hbody
    refine ⟨'\ufeff' :: lead, gap, rest, ?_, .marked hlead, hgap, hne, hstart, hrest⟩
    rw [List.cons_append, ← hbody]
    exact List.eq_cons_of_mem_head? hmark
  · rw [if_neg hmark] at hbody
    exact ⟨lead, gap, rest, hbody, .gap hlead, hgap, hne, hstart, hrest⟩

end Source

end CallAtlas
