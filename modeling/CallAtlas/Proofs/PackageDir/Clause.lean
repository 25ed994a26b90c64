import CallAtlas.Outline.File
import CallAtlas.PackageDir
import CallAtlas.Proofs.Source.Clause

/-!
# Two readings of the package clause

A scan reads the name of a package off the text of a file, from the first line that begins like a
package clause. An outline has the name from the clause that was parsed. The text of a file is what
stands in front of the clause, the word of the clause, a gap, the name, and the rest, and the scan
goes over these parts one by one: no line that reads like a clause goes over the end of a comment.
So the two names can differ only because of a comment, of blanks or a mark in front of the clause,
or of a name with characters that are in no word.

Main statement: `PackageDir.packageName_eq_iff`, and a file with two names,
`packageName_documentsPackage`.
-/

set_option autoImplicit false

namespace CallAtlas

/-! ## The name in the outline -/

namespace Outline

theorem Progress.package_add {p : Progress} {decl : Source.Decl} (h : decl.isClause ≠ true) :
    (p.add decl).file.package = p.file.package := by
  fun_cases Progress.add p decl with
  | case1 name => exact absurd rfl h
  | _ => rfl

/-- A file has the name of its only package clause. -/
theorem package_ofDecls {package name : String} {names : Table String String}
    {decls : List Source.Decl} (h : decls.countP Source.Decl.isClause = 0) :
    (ofDecls package names (.package name :: decls)).package = name := by
  have hfold : ∀ p : Progress, (decls.foldl Progress.add p).file.package = p.file.package := by
    induction decls with
    | nil => exact fun p => rfl
    | cons decl decls ih =>
      intro p
      rw [List.countP_eq_zero, List.forall_mem_cons] at h
      rw [List.foldl_cons, ih (List.countP_eq_zero.mpr h.2), Progress.package_add h.1]
  exact hfold _

end Outline

/-! ## The line that is read -/

namespace PackageDir

open Source (Gap Lead isGap)

/-- What comes first in a clause is its word. -/
theorem clauseName?_of_ne {c : Char} (h : c ≠ 'p') (cs : List Char) :
    clauseName? (c :: cs) = none := by
  have hdrop : Text.dropPrefix? "package".toList (c :: cs) = none := by
    have : "package".toList = 'p' :: "ackage".toList := rfl
    rw [this, Text.dropPrefix?, if_neg (Ne.symm h)]
  rw [clauseName?, hdrop]
  rfl

theorem takeWhile_append_of_mem {q : Char → Bool} {cs : List Char} {c : Char} (hc : c ∈ cs)
    (hq : q c = false) (more : List Char) : (cs ++ more).takeWhile q = cs.takeWhile q := by
  induction cs with
  | nil => cases hc
  | cons d cs ih =>
    rw [List.cons_append, List.takeWhile_cons, List.takeWhile_cons]
    split
    · rename_i hd
      rcases List.mem_cons.mp hc with rfl | hc
      · simp [hq] at hd
      · rw [ih hc]
    · rfl

theorem dropWhile_append_of_mem {q : Char → Bool} {cs : List Char} {c : Char} (hc : c ∈ cs)
    (hq : q c = false) (more : List Char) :
    (cs ++ more).dropWhile q = cs.dropWhile q ++ more ∧ c ∈ cs.dropWhile q := by
  induction cs with
  | nil => cases hc
  | cons d cs ih =>
    rw [List.cons_append, List.dropWhile_cons, List.dropWhile_cons]
    split
    · rename_i hd
      rcases List.mem_cons.mp hc with rfl | hc
      · simp [hq] at hd
      · exact ih hc
    · exact ⟨rfl, hc⟩

/-- What is left of a clause behind its word: blanks, and the name. -/
def clauseRest? (cs : List Char) : Option (List Char) :=
  let name := (cs.dropWhile Text.isBlank).takeWhile Text.isWordChar
  if cs.head?.any Text.isBlank && !name.isEmpty then some name else none

theorem clauseName?_keyword (cs : List Char) :
    clauseName? ("package".toList ++ cs) = clauseRest? cs := by
  have hdrop : Text.dropPrefix? "package".toList ("package".toList ++ cs) = some cs :=
    Text.dropPrefix?_eq_some_iff.mpr rfl
  rw [clauseName?, hdrop]
  cases cs with
  | nil => rfl
  | cons c cs => rfl

/-- A character that stands in no clause hides what is behind it. -/
theorem clauseName?_append {cs : List Char} {c : Char} (hc : c ∈ cs)
    (hblank : Text.isBlank c = false) (hword : Text.isWordChar c = false) (more : List Char) :
    clauseName? (cs ++ more) = clauseName? cs := by
  have hkeyword : c ∉ "package".toList := by
    have hwords : "package".toList.all Text.isWordChar = true := by decide
    intro hmem
    rw [List.all_eq_true.mp hwords c hmem] at hword
    cases hword
  cases hdrop : Text.dropPrefix? "package".toList cs with
  | some rest =>
    obtain rfl := Text.dropPrefix?_eq_some_iff.mp hdrop
    have hrest : c ∈ rest := (List.mem_append.mp hc).resolve_left hkeyword
    obtain ⟨hblanks, hmem⟩ := dropWhile_append_of_mem hrest hblank more
    have hhead : (rest ++ more).head? = rest.head? :=
      List.head?_append_of_ne_nil _ (List.ne_nil_of_mem hrest)
    rw [List.append_assoc, clauseName?_keyword, clauseName?_keyword, clauseRest?,
      clauseRest?, hblanks, takeWhile_append_of_mem hmem hword, hhead]
  | none =>
    have hdrop' : Text.dropPrefix? "package".toList (cs ++ more) = none := by
      rw [Option.eq_none_iff_forall_ne_some]
      intro rest hrest
      rcases List.append_eq_append_iff.mp (Text.dropPrefix?_eq_some_iff.mp hrest) with
        ⟨behind, hkey, _⟩ | ⟨behind, rfl, _⟩
      · exact hkeyword (hkey ▸ List.mem_append_left _ hc)
      · rw [Text.dropPrefix?_eq_some_iff.mpr rfl] at hdrop
        cases hdrop
    rw [clauseName?, clauseName?, hdrop, hdrop']

theorem clauseIn?_cons (fresh : Bool) (c : Char) (cs : List Char) : clauseIn? fresh (c :: cs) =
    (if fresh then clauseName? (c :: cs) else none).or (clauseIn? (c == '\n') cs) := by
  rw [clauseIn?]
  split
  · rename_i hname
    rw [hname, Option.some_or]
  · rename_i hnone
    rw [hnone, Option.none_or]

/-- Where no clause begins, the next characters count. -/
theorem clauseIn?_cons_of_ne {c : Char} (h : c ≠ 'p') (fresh : Bool) (cs : List Char) :
    clauseIn? fresh (c :: cs) = clauseIn? (c == '\n') cs := by
  rw [clauseIn?_cons, clauseName?_of_ne h, ite_self, Option.none_or]

/-- No clause begins within a line. -/
theorem clauseIn?_append_of_notMem {text : List Char} (h : '\n' ∉ text) (more : List Char) :
    clauseIn? false (text ++ more) = clauseIn? false more := by
  induction text with
  | nil => rfl
  | cons c text ih =>
    rw [List.mem_cons, not_or] at h
    rw [List.cons_append, clauseIn?_cons, if_neg (by decide), Option.none_or,
      beq_false_of_ne (Ne.symm h.1), ih h.2]

/-- Nothing goes on over a slash. -/
theorem clauseIn?_append_slash (fresh : Bool) (cs more : List Char) :
    clauseIn? fresh (cs ++ '/' :: more) =
      (clauseIn? fresh (cs ++ ['/'])).or (clauseIn? false more) := by
  induction cs generalizing fresh with
  | nil =>
    rw [List.nil_append, List.nil_append, clauseIn?_cons_of_ne (by decide),
      clauseIn?_cons_of_ne (by decide)]
    rfl
  | cons c cs ih =>
    have hname : clauseName? (c :: (cs ++ '/' :: more)) = clauseName? (c :: (cs ++ ['/'])) := by
      have hslash : '/' ∈ c :: (cs ++ ['/']) := by simp
      simpa using clauseName?_append hslash (by decide) (by decide) more
    rw [List.cons_append, List.cons_append, clauseIn?_cons, clauseIn?_cons, ih, hname,
      Option.or_assoc]

/-- Whether a line starts behind the text, if one does in front of it. -/
def freshAfter (fresh : Bool) (cs : List Char) : Bool :=
  cs.foldl (fun _ c => c == '\n') fresh

theorem freshAfter_true_iff (cs : List Char) :
    freshAfter true cs = true ↔ cs = [] ∨ cs.getLast? = some '\n' := by
  rcases List.eq_nil_or_concat cs with rfl | ⟨front, c, rfl⟩
  · exact ⟨fun _ => Or.inl rfl, fun _ => rfl⟩
  · simp [freshAfter, List.foldl_append]

/-- What is read of a gap, and then of what is behind it: no clause goes over its end. -/
theorem clauseIn?_gap {gap : List Char} (h : Gap gap) (fresh : Bool) (more : List Char) :
    clauseIn? fresh (gap ++ more) =
      (clauseIn? fresh gap).or (clauseIn? (freshAfter fresh gap) more) := by
  induction h generalizing fresh with
  | nil => rfl
  | @blank c cs hc _ ih =>
    have hne : c ≠ 'p' := by
      rintro rfl
      cases hc
    rw [List.cons_append, clauseIn?_cons_of_ne hne, clauseIn?_cons_of_ne hne, ih]
    rfl
  | @line text cs htext _ ih =>
    have hline : ∀ behind,
        clauseIn? fresh ('/' :: '/' :: text ++ '\n' :: behind) = clauseIn? true behind := by
      intro behind
      rw [List.cons_append, List.cons_append, clauseIn?_cons_of_ne (by decide),
        clauseIn?_cons_of_ne (by decide)]
      exact (clauseIn?_append_of_notMem htext _).trans (clauseIn?_cons_of_ne (by decide) _ _)
    have hfresh : freshAfter fresh ('/' :: '/' :: text ++ '\n' :: cs) = freshAfter true cs := by
      rw [freshAfter, List.foldl_append]
      rfl
    have happend : '/' :: '/' :: text ++ '\n' :: cs ++ more =
        '/' :: '/' :: text ++ '\n' :: (cs ++ more) :=
      List.append_assoc ..
    rw [happend, hline, hline, hfresh, ih]
  | @stars text cs _ _ ih =>
    have hstars : ∀ behind, clauseIn? fresh ('/' :: '*' :: text ++ '*' :: '/' :: behind) =
        (clauseIn? fresh ('/' :: '*' :: text ++ ['*'] ++ ['/'])).or (clauseIn? false behind) := by
      intro behind
      rw [← clauseIn?_append_slash, List.append_assoc]
      rfl
    have hfresh : freshAfter fresh ('/' :: '*' :: text ++ '*' :: '/' :: cs) =
        freshAfter false cs := by
      rw [freshAfter, List.foldl_append]
      rfl
    have happend : '/' :: '*' :: text ++ '*' :: '/' :: cs ++ more =
        '/' :: '*' :: text ++ '*' :: '/' :: (cs ++ more) := List.append_assoc ..
    rw [happend, hstars, hstars, hfresh, ih, Option.or_assoc]

theorem clauseIn?_lead {lead : List Char} (h : Lead lead) (fresh : Bool) (more : List Char) :
    clauseIn? fresh (lead ++ more) =
      (clauseIn? fresh lead).or (clauseIn? (freshAfter fresh lead) more) := by
  cases h with
  | gap h => exact clauseIn?_gap h fresh more
  | marked h =>
    rw [List.cons_append, clauseIn?_cons_of_ne (by decide), clauseIn?_cons_of_ne (by decide),
      clauseIn?_gap h]
    rfl

theorem clauseIn?_keyword (fresh : Bool) (cs : List Char) :
    clauseIn? fresh ("package".toList ++ cs) = (if fresh then clauseRest? cs else none).or
      (clauseIn? false cs) := by
  have hword : "package".toList ++ cs = 'p' :: ("ackage".toList ++ cs) := rfl
  have hbehind : clauseIn? ('p' == '\n') ("ackage".toList ++ cs) = clauseIn? false cs :=
    clauseIn?_append_of_notMem (by decide) cs
  rw [← clauseName?_keyword, hword, clauseIn?_cons, hbehind]

/-- A gap is blank, or the first character of it that is not starts a comment. -/
theorem blank_or_slash {gap : List Char} (h : Gap gap) :
    (∀ c ∈ gap, Text.isBlank c = true) ∨ ∃ more, gap.dropWhile Text.isBlank = '/' :: more := by
  induction h with
  | nil => exact Or.inl fun c hc => by cases hc
  | @blank c cs hc _ ih =>
    have hblank := Source.isBlank_of_isGap hc
    rw [List.dropWhile_cons, if_pos hblank]
    exact ih.imp_left fun hcs => List.forall_mem_cons.mpr ⟨hblank, hcs⟩
  | line => exact Or.inr ⟨_, rfl⟩
  | stars => exact Or.inr ⟨_, rfl⟩

/-- No name stands behind a comment. -/
theorem clauseRest?_of_slash {gap more : List Char} (h : gap.dropWhile Text.isBlank = '/' :: more)
    (behind : List Char) : clauseRest? (gap ++ behind) = none := by
  have hdrop : (gap ++ behind).dropWhile Text.isBlank = '/' :: (more ++ behind) := by
    rw [List.dropWhile_append, h]
    rfl
  have hslash : Text.isWordChar '/' = false := by decide
  rw [clauseRest?, hdrop, List.takeWhile_cons, hslash]
  simp

/-- Behind blanks the name is read, if it has the characters of words. -/
theorem clauseRest?_of_blank {gap name rest : List Char} (hblank : ∀ c ∈ gap, Text.isBlank c = true)
    (hne : gap ≠ []) (hstart : ∃ c ∈ name.head?, Text.isIdentStart c = true)
    (hname : ∀ c ∈ name, Text.isWordChar c = true)
    (hrest : ∀ c ∈ rest.head?, Text.isWordChar c = false) :
    clauseRest? (gap ++ (name ++ rest)) = some name := by
  obtain ⟨c, hc, hidentifier⟩ := hstart
  obtain ⟨cs, rfl⟩ := List.head?_eq_some_iff.mp hc
  have hdrop : (gap ++ (c :: cs ++ rest)).dropWhile Text.isBlank = c :: cs ++ rest := by
    rw [List.dropWhile_append_of_pos hblank, List.cons_append, List.dropWhile_cons, if_neg]
    intro hc
    rw [Text.isIdentStart_of_isBlank hc] at hidentifier
    cases hidentifier
  have htake : (c :: cs ++ rest).takeWhile Text.isWordChar = c :: cs := by
    have hnone : rest.takeWhile Text.isWordChar = [] := by
      cases rest with
      | nil => rfl
      | cons d rest => rw [List.takeWhile_cons, hrest d rfl]; rfl
    rw [List.takeWhile_append_of_pos hname, hnone, List.append_nil]
  have hfirst : (gap ++ (c :: cs ++ rest)).head?.any Text.isBlank = true := by
    obtain ⟨d, ds, rfl⟩ := List.exists_cons_of_ne_nil hne
    exact hblank d (List.mem_cons_self ..)
  rw [clauseRest?, hdrop, htake, hfirst]
  rfl

/-- What is read is read from a line of the text. -/
theorem exists_of_clauseIn? {fresh : Bool} {cs name : List Char}
    (h : clauseIn? fresh cs = some name) :
    ∃ before after, cs = before ++ ("package".toList ++ after) ∧ freshAfter fresh before = true ∧
      clauseRest? after = some name := by
  induction cs generalizing fresh with
  | nil => cases h
  | cons c cs ih =>
    rw [clauseIn?_cons] at h
    rcases Option.or_eq_some_iff.mp h with h | ⟨_, h⟩
    · split at h
      · rename_i hfresh
        obtain ⟨after, hafter, _⟩ := Option.bind_eq_some_iff.mp h
        have hcs := Text.dropPrefix?_eq_some_iff.mp hafter
        rw [hcs, clauseName?_keyword] at h
        exact ⟨[], after, hcs, hfresh, h⟩
      · cases h
    · obtain ⟨before, after, rfl, hfresh, hrest⟩ := ih h
      exact ⟨c :: before, after, rfl, hfresh, hrest⟩

/-- Behind the word of a clause stands a blank, and the name has the characters of words. -/
theorem of_clauseRest? {cs name : List Char} (h : clauseRest? cs = some name) :
    cs.head?.any Text.isBlank = true ∧ ∀ c ∈ name, Text.isWordChar c = true := by
  rw [clauseRest?] at h
  split at h
  · rename_i hread
    cases h
    exact ⟨(Bool.and_eq_true_iff.mp hread).1, List.all_eq_true.mp List.all_takeWhile⟩
  · cases h

/-- No line of the text begins with the word of a clause and a blank. -/
def Quiet (cs : List Char) : Prop :=
  ∀ before after, cs = before ++ ("package".toList ++ after) → before = [] ∨
    before.getLast? = some '\n' → after.head?.any Text.isBlank = false

/-- Nothing is read from a quiet text. -/
theorem Quiet.clauseIn?_eq_none {cs : List Char} (h : Quiet cs) : clauseIn? true cs = none := by
  rw [Option.eq_none_iff_forall_ne_some]
  intro name hname
  obtain ⟨before, after, hcs, hfresh, hrest⟩ := exists_of_clauseIn? hname
  have hblank := h before after hcs ((freshAfter_true_iff before).mp hfresh)
  rw [(of_clauseRest? hrest).1] at hblank
  cases hblank

/-- A clause behind `lead` begins its line, and of `gap` behind its word all is blank. -/
def OnLine (lead gap : List Char) : Prop :=
  (lead = [] ∨ lead.getLast? = some '\n') ∧ ∀ c ∈ gap, Text.isBlank c = true

/-- A scan of `lead`, the word of a clause, `gap`, `name` and `rest` gives `name`: a line in front
of the clause reads like a clause of that name, or none there reads like a clause and then either
the clause is on a line and its name has the characters of words, or it is not and a line behind its
word reads like a clause of that name. -/
def ReadsName (lead gap name rest : List Char) : Prop :=
  clauseIn? true lead = some name ∨ clauseIn? true lead = none ∧
    (OnLine lead gap ∧ (∀ c ∈ name, Text.isWordChar c = true) ∨
      ¬OnLine lead gap ∧ clauseIn? false (gap ++ (name ++ rest)) = some name)

section Parts

variable {lead gap name rest : List Char}

/-- What the scan has from a clause on a line. -/
theorem clauseIn?_of_onLine (h : OnLine lead gap) (hne : gap ≠ [])
    (hstart : ∃ c ∈ name.head?, Text.isIdentStart c = true)
    (hrest : ∀ c ∈ rest.head?, Text.isWordChar c = false) :
    clauseIn? (freshAfter true lead) ("package".toList ++ (gap ++ (name ++ rest))) = some name ↔
      ∀ c ∈ name, Text.isWordChar c = true := by
  refine ⟨fun hread => ?_, fun hname => ?_⟩
  · obtain ⟨_, _, _, _, hread⟩ := exists_of_clauseIn? hread
    exact (of_clauseRest? hread).2
  · rw [(freshAfter_true_iff lead).mpr h.1, clauseIn?_keyword, if_pos rfl,
      clauseRest?_of_blank h.2 hne hstart hname hrest, Option.some_or]

/-- Any other clause is passed over. -/
theorem clauseIn?_of_not_onLine (h : ¬OnLine lead gap) (hgap : Gap gap) (behind : List Char) :
    clauseIn? (freshAfter true lead) ("package".toList ++ (gap ++ behind)) =
      clauseIn? false (gap ++ behind) := by
  have hnone : (if freshAfter true lead then clauseRest? (gap ++ behind) else none) = none := by
    split
    · rename_i hfresh
      rcases blank_or_slash hgap with hblank | ⟨more, hslash⟩
      · exact absurd ⟨(freshAfter_true_iff lead).mp hfresh, hblank⟩ h
      · exact clauseRest?_of_slash hslash behind
    · rfl
  rw [clauseIn?_keyword, hnone, Option.none_or]

theorem clauseIn?_eq_some_iff (hlead : Lead lead) (hgap : Gap gap) (hne : gap ≠ [])
    (hstart : ∃ c ∈ name.head?, Text.isIdentStart c = true)
    (hrest : ∀ c ∈ rest.head?, Text.isWordChar c = false) :
    clauseIn? true (lead ++ ("package".toList ++ (gap ++ (name ++ rest)))) = some name ↔
      ReadsName lead gap name rest := by
  rw [clauseIn?_lead hlead, Option.or_eq_some_iff, ReadsName]
  refine or_congr_right (and_congr_right fun _ => ?_)
  by_cases h : OnLine lead gap
  · rw [clauseIn?_of_onLine h hne hstart hrest]
    simp [h]
  · rw [clauseIn?_of_not_onLine h hgap]
    simp [h]

theorem Quiet.readsName (h : Quiet lead) (hline : OnLine lead gap)
    (hname : ∀ c ∈ name, Text.isWordChar c = true) : ReadsName lead gap name rest :=
  Or.inr ⟨h.clauseIn?_eq_none, Or.inl ⟨hline, hname⟩⟩

end Parts

theorem packageName_eq_iff_clauseIn? {source name : String} (hne : name.toList ≠ []) :
    packageName source = name ↔ clauseIn? true source.toList = some name.toList := by
  rw [packageName, ← String.toList_inj, String.toList_ofList]
  cases clauseIn? true source.toList with
  | none => exact ⟨fun h => absurd h.symm hne, fun h => by cases h⟩
  | some read => exact Option.some_inj.symm

/-- **When the scan and the outline agree on the name of a package.** Let a file without syntax
errors begin with its one package clause, and let `lead` be what stands in front of the clause
and `gap` what stands between its word and its name. The name that a scan reads from the text is
the one in the outline of the file if and only if the scan reads it from these parts. It does so
if no line of `lead` begins like a clause, the clause is on a line, and its name has the
characters of words. -/
theorem packageName_eq_iff {package : String} {names : Table String String} {source : String}
    {file : Outline.File} (hfile : Outline.ofSource? package names source = some file)
    (hclause : Source.ClausedOnce source) :
    ∃ lead gap rest, source.toList =
      lead ++ ("package".toList ++ (gap ++ (file.package.toList ++ rest))) ∧ Lead lead ∧
      Gap gap ∧ gap ≠ [] ∧ (packageName source = file.package ↔
        ReadsName lead gap file.package.toList rest) ∧
      (Quiet lead → OnLine lead gap → (∀ c ∈ file.package.toList, Text.isWordChar c = true) →
        packageName source = file.package) := by
  obtain ⟨t, name, ts, decls, htokens, hkind, htext, hname, hparse, honce⟩ := hclause.exists
  have hpackage : file.package = name.text := by
    rw [Outline.ofSource?, hparse] at hfile
    rw [← Option.some.inj hfile]
    exact Outline.package_ofDecls honce
  rw [hpackage]
  obtain ⟨lead, gap, rest, hsource, hlead, hgap, hne, hstart, hrest⟩ :=
    Source.exists_of_tokens?_words htokens hkind hname
  rw [htext] at hsource
  have hnonempty : name.text.toList ≠ [] := by
    intro hnil
    obtain ⟨c, hc, _⟩ := hstart
    rw [hnil] at hc
    cases hc
  have hiff : packageName source = name.text ↔ ReadsName lead gap name.text.toList rest := by
    rw [packageName_eq_iff_clauseIn? hnonempty, hsource]
    exact clauseIn?_eq_some_iff hlead hgap hne hstart hrest
  exact ⟨lead, gap, rest, hsource, hlead, hgap, hne, hiff, fun hquiet hline hwords =>
    hiff.mpr (hquiet.readsName hline hwords)⟩

/-- A comment that writes about another package, within a line. -/
def marksPackage : String :=
  "// Package main runs.\n/* see\n package doc */\npackage \tmain\n"

theorem packageName_eq_iff_marksPackage : ∃ file, Outline.ofSource? "m" ∅ marksPackage = some file ∧
    Source.ClausedOnce marksPackage ∧ file.package = "main" ∧
      packageName marksPackage = file.package ∧
    ∃ lead gap rest,
      marksPackage.toList = lead ++ ("package".toList ++ (gap ++ (file.package.toList ++ rest))) ∧
      Lead lead ∧ Gap gap ∧ gap ≠ [] ∧ ReadsName lead gap file.package.toList rest := by
  have hpackage : (Outline.ofSource? "m" ∅ marksPackage).map Outline.File.package =
      some "main" := by
    decide +kernel
  have hclause : Source.ClausedOnce marksPackage := by decide +kernel
  have hread : packageName marksPackage = "main" := by decide +kernel
  obtain ⟨file, hfile, hmain⟩ := Option.map_eq_some_iff.mp hpackage
  obtain ⟨lead, gap, rest, hsource, hlead, hgap, hne, hiff, _⟩ :=
    packageName_eq_iff hfile hclause
  have hagree := hread.trans hmain.symm
  exact ⟨file, hfile, hclause, hmain, hagree, lead, gap, rest, hsource, hlead, hgap, hne,
    hiff.mp hagree⟩

/-- A comment that writes about another package, in a line that begins with it. -/
def documentsPackage : String :=
  "/*\npackage doc\n*/\npackage main\n\nfunc main() {}\n"

/-- The comment is read in place of the clause. -/
theorem packageName_documentsPackage :
    accepted .host "main.go" (some documentsPackage) =
      some { name := "main.go", text := documentsPackage } ∧ Source.ClausedOnce documentsPackage ∧
      (Outline.ofSource? "m" ∅ documentsPackage).map Outline.File.package = some "main" ∧
      packageName documentsPackage = "doc" := by
  decide +kernel

end PackageDir

end CallAtlas
