import CallAtlas.Text.Blank

/-!
# Cutting and sorting texts

A text is cut into lines, into words and at separators, and prefixes and blanks are taken off.
Each cut is described by what it does to a text that was put together from pieces: the pieces come
back. A list that is sorted by a text does not depend on the order before, as far as the texts
tell its elements apart.
-/

set_option autoImplicit false

namespace CallAtlas.Text

/-! ## Prefixes -/

theorem dropPrefix?_eq_some_iff {p cs rest : List Char} :
    dropPrefix? p cs = some rest ↔ cs = p ++ rest := by
  fun_induction dropPrefix? p cs with
  | case1 cs => simp [eq_comm]
  | case2 a p => simp
  | case3 p c cs ih => simp [ih]
  | case4 a p c cs hne =>
    simp only [reduceCtorEq, List.cons_append, List.cons.injEq, false_iff, not_and]
    exact fun h => absurd h.symm hne

theorem stripPrefix?_eq_some_iff {p s : String} {rest : List Char} :
    stripPrefix? p s = some (String.ofList rest) ↔ s.toList = p.toList ++ rest := by
  rw [stripPrefix?, ← dropPrefix?_eq_some_iff]
  constructor
  · intro h
    obtain ⟨cs, hcs, heq⟩ := Option.map_eq_some_iff.mp h
    rw [hcs, String.ofList_injective heq]
  · intro h
    rw [h, Option.map_some]

theorem startsWith_iff {p s : String} :
    startsWith p s = true ↔ ∃ rest, s.toList = p.toList ++ rest := by
  rw [startsWith, List.isPrefixOf_iff_prefix]
  constructor
  · rintro ⟨rest, h⟩
    exact ⟨rest, h.symm⟩
  · rintro ⟨rest, h⟩
    exact ⟨rest, h.symm⟩

theorem stripPrefix?_eq_none_iff {p s : String} :
    stripPrefix? p s = none ↔ startsWith p s = false := by
  rw [Option.eq_none_iff_forall_ne_some, ← Bool.not_eq_true, startsWith_iff, not_exists]
  constructor
  · intro hnone rest hrest
    exact hnone (String.ofList rest) (stripPrefix?_eq_some_iff.mpr hrest)
  · intro hnone rest hrest
    rw [← String.ofList_toList (s := rest)] at hrest
    exact hnone rest.toList (stripPrefix?_eq_some_iff.mp hrest)

/-! ## Pieces between separators -/

theorem splitBy_eq_splitOnP (p : Char → Bool) (cs : List Char) : splitBy p cs = cs.splitOnP p := by
  induction cs with
  | nil => rfl
  | cons c cs ih =>
    rw [splitBy, List.splitOnP_cons_eq_if_modifyHead, ← ih]
    split
    · rfl
    · cases hcs : splitBy p cs with
      | nil => exact absurd (ih ▸ hcs) (List.splitOnP_ne_nil p cs)
      | cons w ws => rfl

theorem splitBy_ne_nil (p : Char → Bool) (cs : List Char) : splitBy p cs ≠ [] := by
  rw [splitBy_eq_splitOnP]
  exact List.splitOnP_ne_nil p cs

theorem splitBy_append_cons {p : Char → Bool} {piece : List Char} (h : ∀ c ∈ piece, p c = false)
    {c : Char} (hc : p c = true) (cs : List Char) :
    splitBy p (piece ++ c :: cs) = piece :: splitBy p cs := by
  rw [splitBy_eq_splitOnP, splitBy_eq_splitOnP]
  exact List.splitOnP_append_cons_of_forall_mem h c hc cs

theorem splitBy_of_none {p : Char → Bool} {piece : List Char} (h : ∀ c ∈ piece, p c = false) :
    splitBy p piece = [piece] := by
  rw [splitBy_eq_splitOnP]
  exact List.splitOnP_eq_singleton h

/-! ## Words -/

theorem wordsOf_blank {c : Char} (hc : isBlank c = true) (cs : List Char) :
    wordsOf (c :: cs) = wordsOf cs := by
  simp [wordsOf, splitBy, hc]

theorem wordsOf_blanks {gap : List Char} (h : ∀ c ∈ gap, isBlank c = true) (cs : List Char) :
    wordsOf (gap ++ cs) = wordsOf cs := by
  induction gap with
  | nil => rfl
  | cons c gap ih =>
    rw [List.cons_append, wordsOf_blank (h c List.mem_cons_self)]
    exact ih fun d hd => h d (List.mem_cons_of_mem c hd)

theorem wordsOf_word {word cs : List Char} (hne : word ≠ []) (hword : ∀ c ∈ word, isBlank c = false)
    (hcs : ∀ c, cs.head? = some c → isBlank c = true) :
    wordsOf (word ++ cs) = word :: wordsOf cs := by
  cases cs with
  | nil => simp [wordsOf, splitBy_of_none hword, splitBy, hne]
  | cons c cs =>
    have hc : isBlank c = true := hcs c rfl
    rw [wordsOf_blank hc, wordsOf, splitBy_append_cons hword hc, wordsOf, List.filter_cons_of_pos]
    simpa using hne

/-! ## Blanks at the ends -/

theorem trimBy_concat {p : Char → Bool} {c : Char} (hc : p c = true) (cs : List Char) :
    trimBy p (cs ++ [c]) = trimBy p cs := by
  unfold trimBy
  rw [List.dropWhile_append]
  split
  · rename_i hempty
    have hnil : cs.dropWhile p = [] := List.isEmpty_iff.mp hempty
    simp [hnil, hc]
  · simp [hc]

theorem trim_dropSuffix (line : List Char) :
    trim (String.ofList ((dropSuffix? ['\r'] line).getD line)) = trim (String.ofList line) := by
  cases hdrop : dropSuffix? ['\r'] line with
  | none => rfl
  | some front =>
    obtain ⟨rest, hrest, rfl⟩ := Option.map_eq_some_iff.mp hdrop
    have hline : line = rest.reverse ++ ['\r'] := by
      have hreverse := dropPrefix?_eq_some_iff.mp hrest
      rw [← List.reverse_reverse line, hreverse]
      simp
    rw [Option.getD_some, trim, trim, String.toList_ofList, String.toList_ofList, hline,
      trimBy_concat (by decide)]

/-! ## Lines -/

theorem linesOf_append_cons {line : List Char} (h : '\n' ∉ line) (cs : List Char) :
    linesOf (line ++ '\n' :: cs) = (dropSuffix? ['\r'] line).getD line :: linesOf cs := by
  have hline : ∀ c ∈ line, (c == '\n') = false := by
    intro c hc
    rw [beq_eq_false_iff_ne]
    rintro rfl
    exact h hc
  obtain ⟨piece, pieces, hpieces⟩ := List.exists_cons_of_ne_nil (splitBy_ne_nil (· == '\n') cs)
  unfold linesOf
  rw [splitBy_append_cons hline (by decide), hpieces]
  simp only [List.dropLast_cons_cons, List.map_cons, List.getLast?_cons_cons]
  split <;> rfl

/-- Blanks aside, the lines of a text are the lines that it was put together from. -/
theorem map_trim_linesOf {lines : List String} (h : ∀ line ∈ lines, '\n' ∉ line.toList)
    (cs : List Char) : (linesOf (lines.flatMap (fun line => line.toList ++ ['\n']) ++ cs)).map
        (fun line => trim (String.ofList line)) =
      lines.map trim ++ (linesOf cs).map fun line => trim (String.ofList line) := by
  induction lines with
  | nil => rfl
  | cons line lines ih =>
    have hlines := ih fun l hl => h l (List.mem_cons_of_mem line hl)
    rw [List.flatMap_cons, List.append_assoc, List.append_assoc, List.singleton_append,
      linesOf_append_cons (h line List.mem_cons_self), List.map_cons, trim_dropSuffix,
      String.ofList_toList, hlines, List.map_cons, List.cons_append]

theorem linesOf_of_none {line : List Char} (h : '\n' ∉ line) (hne : line ≠ []) :
    linesOf line = [line] := by
  have hline : ∀ c ∈ line, (c == '\n') = false := by
    intro c hc
    rw [beq_eq_false_iff_ne]
    rintro rfl
    exact h hc
  obtain ⟨c, cs, rfl⟩ := List.exists_cons_of_ne_nil hne
  simp [linesOf, splitBy_of_none hline]

/-! ## Lists in an order -/

section Sorted

variable {α : Type}

/-- Sorting a list in another order gives the same if the order tells its elements apart. -/
theorem mergeSort_eq_of_perm {le : α → α → Bool} (htrans : ∀ a b c, le a b → le b c → le a c)
    (htotal : ∀ a b, le a b || le b a) {xs ys : List α} (h : xs.Perm ys)
    (hantisymm : ∀ a ∈ xs, ∀ b ∈ xs, le a b → le b a → a = b) :
    xs.mergeSort le = ys.mergeSort le := by
  have hperm : (xs.mergeSort le).Perm (ys.mergeSort le) :=
    (List.mergeSort_perm xs le).trans (h.trans (List.mergeSort_perm ys le).symm)
  refine hperm.eq_of_pairwise (fun a b ha hb => ?_) (List.pairwise_mergeSort htrans htotal xs)
    (List.pairwise_mergeSort htrans htotal ys)
  exact hantisymm a (List.mem_mergeSort.mp ha) b (h.mem_iff.mpr (List.mem_mergeSort.mp hb))

/-- Elements compared by a text that each of them has. -/
def leBy (text : α → String) (a b : α) : Bool := decide (text a ≤ text b)

variable (text : α → String)

theorem leBy_trans (a b c : α) (hab : leBy text a b) (hbc : leBy text b c) : leBy text a c :=
  decide_eq_true (String.le_trans (of_decide_eq_true hab) (of_decide_eq_true hbc))

theorem leBy_total (a b : α) : leBy text a b || leBy text b a := by
  rw [Bool.or_eq_true, leBy, leBy, decide_eq_true_eq, decide_eq_true_eq]
  exact String.le_total _ _

theorem pairwise_mergeSort_leBy (xs : List α) :
    (xs.mergeSort (leBy text)).Pairwise fun a b => text a ≤ text b :=
  (List.pairwise_mergeSort (leBy_trans text) (leBy_total text) xs).imp of_decide_eq_true

end Sorted

end CallAtlas.Text
