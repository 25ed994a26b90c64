import CallAtlas.Proofs.Source.Positions

/-!
# Words in front of a text

What stands in front of a token is a `Gap`: blanks, comments to the end of a line and comments in
stars. A word is as long as it can be. So where a text begins with a word and then another word, it
is the first gap, the first word, a gap that is not empty, and the second word, and the character
behind each of the words belongs to no word.

Main statement: `exists_of_tokensFrom_word`, which takes the first word off a text.
-/

set_option autoImplicit false

namespace CallAtlas

/-! ## Characters -/

namespace Text

/-- What the search of a table finds lies in one of its ranges. -/
theorem exists_of_searchRanges {table : Array (Nat × Nat)} {n fuel lo hi : Nat}
    (h : searchRanges table n fuel lo hi = true) : ∃ r ∈ table.toList, r.1 ≤ n ∧ n ≤ r.2 := by
  induction fuel generalizing lo hi with
  | zero => cases h
  | succ fuel ih =>
    unfold searchRanges at h
    split at h
    · dsimp only at h
      split at h
      · cases h
      · rename_i first last hmid
        split at h
        · exact ih h
        · rename_i hfirst
          split at h
          · exact ih h
          · rename_i hlast
            rw [← Array.getElem?_toList] at hmid
            exact ⟨(first, last), List.mem_of_getElem? hmid, Nat.le_of_not_lt hfirst,
              Nat.le_of_not_lt hlast⟩
    · cases h

/-- Marks that may not continue an identifier may not start one. -/
theorem isIdentContinue_of_isIdentStart {c : Char} (h : isIdentStart c = true) :
    isIdentContinue c = true := by
  have hexcluded : ∀ r ∈ continueExcluded.toList, ∀ k < r.2 - r.1 + 1,
      ((inRanges letters (r.1 + k) && !inRanges startExcluded (r.1 + k)) ||
        inRanges startExtra (r.1 + k)) = false := by decide +kernel
  unfold isIdentContinue
  dsimp only
  split
  · rename_i hascii
    unfold isIdentStart at h
    rw [if_pos hascii] at h
    cases hletter : isAsciiLetter c <;> simp_all
  · rename_i hascii
    cases hmark : inRanges continueExcluded c.toNat with
    | false => simp [h]
    | true =>
      obtain ⟨r, hr, hle, hge⟩ := exists_of_searchRanges hmark
      have hnone := hexcluded r hr (c.toNat - r.1) (by omega)
      rw [Nat.add_sub_cancel' hle] at hnone
      unfold isIdentStart at h
      rw [if_neg hascii, hnone] at h
      cases h

theorem isIdentStart_of_isBlank {c : Char} (h : isBlank c = true) : isIdentStart c = false := by
  have hblanks : ∀ n ∈ [0x9, 0xA, 0xB, 0xC, 0xD, 0x20, 0x85, 0xA0, 0x1680, 0x2000, 0x2001,
      0x2002, 0x2003, 0x2004, 0x2005, 0x2006, 0x2007, 0x2008, 0x2009, 0x200A, 0x2028, 0x2029,
      0x202F, 0x205F, 0x3000], isIdentStart (Char.ofNat n) = false := by decide +kernel
  have hmem := hblanks c.toNat (by
    simp only [isBlank, Bool.or_eq_true, Bool.and_eq_true, decide_eq_true_eq, beq_iff_eq] at h
    simp only [List.mem_cons, List.not_mem_nil, or_false]
    omega)
  rwa [Char.ofNat_toNat] at hmem

/-- Below the other scripts, the characters of words are those of identifiers. -/
theorem le_toNat_of_isWordChar {c : Char} (h : isWordChar c = true)
    (hc : isIdentContinue c = false) : 0x80 ≤ c.toNat := by
  by_contra hlt
  unfold isWordChar at h
  unfold isIdentContinue at hc
  rw [if_pos (Nat.lt_of_not_le hlt)] at h hc
  rw [h] at hc
  cases hc

end Text

namespace Source

theorem isBlank_of_isGap {c : Char} (h : isGap c = true) : Text.isBlank c = true := by
  simp only [isGap, Bool.or_eq_true, beq_iff_eq] at h
  rcases h with ((rfl | rfl) | rfl) | rfl <;> rfl

/-! ## Gaps -/

/-- Blanks and comments that may stand in front of a token. -/
inductive Gap : List Char → Prop
  | nil : Gap []
  | blank {c : Char} {cs : List Char} (hc : isGap c = true) (h : Gap cs) : Gap (c :: cs)
  | line {text cs : List Char} (htext : '\n' ∉ text) (h : Gap cs) :
      Gap ('/' :: '/' :: text ++ '\n' :: cs)
  | stars {text cs : List Char} (htext : ¬['*', '/'] <:+: text) (h : Gap cs) :
      Gap ('/' :: '*' :: text ++ '*' :: '/' :: cs)

theorem exists_of_closeComment {cs rest : List Char} (h : closeComment cs = some rest) :
    ∃ text, cs = text ++ '*' :: '/' :: rest ∧ ¬['*', '/'] <:+: text := by
  fun_induction closeComment cs with
  | case1 cs => exact ⟨[], by rw [Option.some.inj h]; rfl, by simp⟩
  | case2 c cs hopen ih =>
    obtain ⟨text, rfl, htext⟩ := ih h
    refine ⟨c :: text, rfl, fun hinside => ?_⟩
    rcases List.infix_cons_iff.mp hinside with ⟨more, hmore⟩ | hinside
    · obtain ⟨rfl, rfl⟩ := List.cons.inj hmore
      exact hopen _ rfl rfl
    · exact htext hinside
  | case3 => cases h

theorem skipGap_nil (fuel : Nat) (fresh : Bool) : skipGap fuel fresh [] = some (fresh, []) := by
  cases fuel <;> rfl

/-- What is skipped in front of something is a gap. -/
theorem exists_gap {fuel : Nat} {fresh fresh' : Bool} {cs rest : List Char}
    (hfuel : cs.length < fuel) (h : skipGap fuel fresh cs = some (fresh', rest))
    (hrest : rest ≠ []) : ∃ gap, cs = gap ++ rest ∧ Gap gap := by
  induction fuel using Nat.strongRecOn generalizing fresh cs with
  | ind fuel ih =>
    cases fuel with
    | zero => omega
    | succ fuel =>
      unfold skipGap at h
      split at h
      · rename_i text
        have hsplit := List.takeWhile_append_dropWhile (p := (· != '\n')) (l := text)
        have htext : '\n' ∉ text.takeWhile (· != '\n') := fun hmem => by
          simpa using List.all_eq_true.mp List.all_takeWhile _ hmem
        generalize text.takeWhile (· != '\n') = body at hsplit htext
        cases hdrop : text.dropWhile (· != '\n') with
        | nil =>
          rw [hdrop, skipGap_nil] at h
          cases h
          exact absurd rfl hrest
        | cons c more =>
          -- the comment ends with its line, and the end of the line is a blank
          obtain rfl : c = '\n' := by
            have hstop := List.head?_dropWhile_not (· != '\n') text
            rw [hdrop] at hstop
            simpa using hstop
          rw [hdrop] at h hsplit
          rw [← hsplit] at hfuel
          simp only [List.length_cons, List.length_append] at hfuel
          obtain ⟨fuel, rfl⟩ : ∃ k, fuel = k + 1 := ⟨fuel - 1, by omega⟩
          obtain ⟨gap, rfl, hgap⟩ := ih fuel (by omega) (by omega) h
          exact ⟨_, by rw [← hsplit]; simp, .line htext hgap⟩
      · rename_i text
        obtain ⟨more, hclose, hskip⟩ := Option.bind_eq_some_iff.mp h
        obtain ⟨body, rfl, hbody⟩ := exists_of_closeComment hclose
        obtain ⟨gap, rfl, hgap⟩ := ih fuel (by omega) (by simp at hfuel; omega) hskip
        exact ⟨_, by simp, .stars hbody hgap⟩
      · split at h
        · rename_i c more _ _ hc
          obtain ⟨gap, rfl, hgap⟩ := ih fuel (by omega) (by simp at hfuel; omega) h
          exact ⟨c :: gap, rfl, .blank hc hgap⟩
        · cases h
          exact ⟨[], rfl, .nil⟩
      · cases h
        exact ⟨[], rfl, .nil⟩

/-! ## What a token starts with -/

/-- What is read starts with a digit or a point. -/
def Leads (read : List Char → Option (List Char)) : Prop :=
  ∀ c cs rest, read (c :: cs) = some rest → Text.isAsciiDigit c = true ∨ c = '.'

theorem leads_digits : Leads (digits Text.isAsciiDigit) := by
  intro c cs rest h
  simp only [digits] at h
  split at h
  · rename_i hdigit
    exact Or.inl hdigit
  · cases h

theorem leads_zero {read : List Char → Option (List Char)}
    (h : ∀ c cs, c ≠ '0' → read (c :: cs) = none) : Leads read := by
  intro c cs rest hread
  by_cases hc : c = '0'
  · subst hc
    exact Or.inl rfl
  · rw [h c cs hc] at hread
    cases hread

theorem Leads.bind {read : List Char → Option (List Char)} (h : Leads read)
    (more : List Char → Option (List Char)) : Leads fun cs => read cs >>= more := by
  intro c cs rest hread
  obtain ⟨mid, hmid, _⟩ := Option.bind_eq_some_iff.mp hread
  exact h c cs mid hmid

theorem leads_of_mem_intForms {read : List Char → Option (List Char)} (h : read ∈ intForms) :
    Leads read := by
  simp only [intForms, List.mem_cons, List.not_mem_nil, or_false] at h
  rcases h with rfl | rfl | rfl | rfl
  · exact leads_zero fun c cs hc => by simp [basedInt, hc]
  · intro c cs rest h
    unfold decimalInt at h
    split at h
    · rename_i heq
      cases heq
      exact Or.inl rfl
    · split at h
      · rename_i heq hdigit
        cases heq
        exact Or.inl hdigit
      · cases h
    · cases h
  · exact leads_zero fun c cs hc => by simp [octalInt, hc]
  · exact leads_zero fun c cs hc => by simp [basedInt, hc]

theorem leads_of_mem_floatForms {read : List Char → Option (List Char)} (h : read ∈ floatForms) :
    Leads read := by
  simp only [floatForms, List.mem_cons, List.not_mem_nil, or_false] at h
  rcases h with rfl | rfl | rfl | rfl
  · exact leads_digits.bind _
  · exact leads_digits.bind _
  · intro c cs rest h
    obtain ⟨_, hone, _⟩ := Option.bind_eq_some_iff.mp h
    simp only [oneOf] at hone
    split at hone
    · rename_i hc
      exact Or.inr (by simpa using hc)
    · cases hone
  · exact leads_zero fun c cs hc => by simp [hexFloat, hc]

theorem leads_of_mem_imaginaryForms {read : List Char → Option (List Char)}
    (h : read ∈ imaginaryForms) : Leads read := by
  obtain ⟨form, hform, rfl⟩ := List.mem_map.mp h
  rcases List.mem_append.mp hform with hform | hform
  · rcases List.mem_cons.mp hform with rfl | hform
    · exact leads_digits.bind _
    · exact (leads_of_mem_intForms hform).bind _
  · exact (leads_of_mem_floatForms hform).bind _

theorem of_number {c : Char} {cs rest : List Char} {kind : TokenKind}
    (h : number (c :: cs) = some (kind, rest)) :
    kind ≠ .word ∧ (Text.isAsciiDigit c = true ∨ c = '.') := by
  obtain ⟨form, hread, ⟨rfl, hform⟩ | ⟨rfl, hform⟩ | ⟨rfl, hform⟩⟩ := form_of_number h
  · exact ⟨nofun, leads_of_mem_intForms hform _ _ _ hread⟩
  · exact ⟨nofun, leads_of_mem_floatForms hform _ _ _ hread⟩
  · exact ⟨nofun, leads_of_mem_imaginaryForms hform _ _ _ hread⟩

theorem toNat_lt_of_closeSign {c : Char} {cs rest : List Char}
    (h : closeSign (c :: cs) = some rest) : c.toNat < 0x80 := by
  have hsigns : ∀ s ∈ signs, s.toList.head?.any (fun d => d.toNat < 0x80) = true := by decide
  obtain ⟨s, hs, hdrop⟩ := List.exists_of_findSome?_eq_some h
  rw [Text.dropPrefix?_eq_some_iff] at hdrop
  have hfirst := hsigns s hs
  cases hchars : s.toList with
  | nil =>
    rw [hchars] at hfirst
    cases hfirst
  | cons d ds =>
    rw [hchars] at hdrop hfirst
    obtain ⟨rfl, _⟩ := List.cons.inj hdrop
    exact of_decide_eq_true hfirst

/-- A token that is no word starts with one of the first characters of the code. -/
theorem toNat_lt_of_oneToken {c : Char} {cs rest : List Char} {kind : TokenKind}
    (h : oneToken (c :: cs) = some (kind, rest)) (hc : Text.isIdentStart c = false) :
    c.toNat < 0x80 := by
  simp only [oneToken, hc, Bool.false_eq_true, if_false] at h
  split at h
  · rename_i heq
    rw [eq_of_beq heq]
    decide
  · split at h
    · rename_i heq
      rw [eq_of_beq heq]
      decide
    · split at h
      · rename_i heq
        rw [eq_of_beq heq]
        decide
      · split at h
        · rename_i hnumber
          cases h
          rcases (of_number hnumber).2 with hdigit | rfl
          · simp only [Text.isAsciiDigit, Bool.and_eq_true, decide_eq_true_eq] at hdigit
            exact Nat.lt_of_le_of_lt (UInt32.le_iff_toNat_le.mp hdigit.2) (by decide)
          · decide
        · obtain ⟨_, hsign, _⟩ := Option.map_eq_some_iff.mp h
          exact toNat_lt_of_closeSign hsign

/-- A word goes as far as it can. -/
theorem of_oneToken_word {cs tail : List Char} (h : oneToken cs = some (.word, tail)) :
    ∃ c word, cs = c :: word ++ tail ∧ Text.isIdentStart c = true ∧
      ∀ d ∈ tail.head?, Text.isIdentContinue d = false := by
  unfold oneToken at h
  split at h
  · cases h
  · rename_i c rest
    split at h
    · rename_i hstart
      cases h
      refine ⟨c, rest.takeWhile Text.isIdentContinue, ?_, hstart, fun d hd => ?_⟩
      · rw [List.cons_append, List.takeWhile_append_dropWhile]
      · have hstop := List.head?_dropWhile_not Text.isIdentContinue rest
        rw [hd] at hstop
        simpa using hstop
    · split at h
      · obtain ⟨_, _, heq⟩ := Option.map_eq_some_iff.mp h
        cases heq
      · split at h
        · obtain ⟨_, _, heq⟩ := Option.map_eq_some_iff.mp h
          cases heq
        · split at h
          · obtain ⟨_, _, heq⟩ := Option.map_eq_some_iff.mp h
            cases heq
          · split at h
            · rename_i hnumber
              cases h
              exact absurd rfl (of_number hnumber).1
            · obtain ⟨_, _, heq⟩ := Option.map_eq_some_iff.mp h
              cases heq

/-! ## The first word -/

theorem consumed_append (word tail : List Char) : consumed (word ++ tail) tail = word := by
  simp [consumed]

/-- Where a word is the first token, it stands behind a gap, and the other tokens behind it. -/
theorem exists_of_tokensFrom_word {fuel : Nat} {pos : Position} {cs : List Char} {t : Token}
    {ts : List Token} (h : tokensFrom fuel pos cs = some (t :: ts)) (ht : t.kind = .word) :
    ∃ gap tail fuel' pos', cs = gap ++ (t.text.toList ++ tail) ∧ Gap gap ∧
      (∃ c ∈ t.text.toList.head?, Text.isIdentStart c = true) ∧
      (∀ c ∈ tail.head?, Text.isIdentContinue c = false) ∧
        tokensFrom fuel' pos' tail = some ts := by
  cases fuel with
  | zero => cases h
  | succ fuel =>
    unfold tokensFrom at h
    obtain ⟨⟨fresh, rest⟩, hskip, h⟩ := Option.bind_eq_some_iff.mp h
    dsimp only at h
    split at h
    · cases h
      cases ht
    · rename_i hrest
      obtain ⟨⟨kind, tail⟩, htoken, h⟩ := Option.bind_eq_some_iff.mp h
      obtain ⟨more, hmore, h⟩ := Option.bind_eq_some_iff.mp h
      cases h
      obtain rfl : kind = .word := ht
      obtain ⟨gap, rfl, hgap⟩ := exists_gap (Nat.lt_succ_self _) hskip (by simpa using hrest)
      obtain ⟨c, word, rfl, hstart, hstop⟩ := of_oneToken_word htoken
      refine ⟨gap, tail, fuel, _, ?_, hgap, ?_, hstop, hmore⟩
      · rw [String.toList_ofList, consumed_append]
      · rw [String.toList_ofList, consumed_append]
        exact ⟨c, rfl, hstart⟩

/-- The character behind a word belongs to no word, if anything can be read from there. -/
theorem isWordChar_of_tokensFrom {fuel : Nat} {pos : Position} {c : Char} {cs : List Char}
    {ts : List Token} (h : tokensFrom fuel pos (c :: cs) = some ts)
    (hc : Text.isIdentContinue c = false) : Text.isWordChar c = false := by
  by_contra hword
  have hhigh : 0x80 ≤ c.toNat := Text.le_toNat_of_isWordChar (by simpa using hword) hc
  have hne {d : Char} (hd : d.toNat < 0x80) : c ≠ d := by
    rintro rfl
    omega
  have hstart : Text.isIdentStart c = false := by
    by_contra hstart
    rw [Text.isIdentContinue_of_isIdentStart (by simpa using hstart)] at hc
    cases hc
  have hskip : skipGap ((c :: cs).length + 1) false (c :: cs) = some (false, c :: cs) := by
    unfold skipGap
    split
    · exact absurd (List.cons.inj ‹_›).1 (hne (by decide))
    · exact absurd (List.cons.inj ‹_›).1 (hne (by decide))
    · rename_i heq
      cases heq
      rw [if_neg]
      simp [isGap, hne]
    · cases ‹c :: cs = []›
  cases fuel with
  | zero => cases h
  | succ fuel =>
    unfold tokensFrom at h
    obtain ⟨⟨fresh, rest⟩, heq, h⟩ := Option.bind_eq_some_iff.mp h
    cases hskip.symm.trans heq
    obtain ⟨⟨kind, tail⟩, htoken, _⟩ := Option.bind_eq_some_iff.mp h
    exact absurd (toNat_lt_of_oneToken htoken hstart) (Nat.not_lt_of_le hhigh)

end Source

end CallAtlas
