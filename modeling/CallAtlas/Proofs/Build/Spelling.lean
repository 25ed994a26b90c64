import CallAtlas.Proofs.Build.Grammar
import Mathlib.Data.List.TakeWhile

/-!
# The spelling of build constraints

A text spells tokens if it is made of them, with blanks in between (`Spells`). Cutting the
text gives the tokens back, and a text that spells nothing has a first character with
which no token starts.

That character is not refused. It counts as two closing parentheses, which end a constraint if two
parentheses are open in front of it and nothing else is missing. So a misplaced character does not
make a constraint allow nothing: it makes it mean what stands in front of it, closed by `))`.
-/

set_option autoImplicit false

namespace CallAtlas.Build

/-- The tokens that are always written in the same way. -/
def signs : List (List Char × ConstraintToken) :=
  [(['!'], .not), (['('], .opening), ([')'], .closing), (['&', '&'], .and), (['|', '|'], .or)]

/-- The text does not go on with a character of a tag. -/
def EndsTag (cs : List Char) : Prop := ∀ c, cs.head? = some c → isTagChar c = false

/-- The text is made of these tokens, with blanks between them; a tag ends where its
characters end. -/
inductive Spells : List Char → List ConstraintToken → Prop
  | nil : Spells [] []
  | blank {c : Char} {cs : List Char} {ts : List ConstraintToken} (hc : c = ' ' ∨ c = '\t')
      (h : Spells cs ts) : Spells (c :: cs) ts
  | sign {text cs : List Char} {t : ConstraintToken} {ts : List ConstraintToken}
      (hsign : (text, t) ∈ signs) (h : Spells cs ts) : Spells (text ++ cs) (t :: ts)
  | tag {name cs : List Char} {ts : List ConstraintToken} (hname : name ≠ [])
      (hchars : ∀ c ∈ name, isTagChar c = true) (hend : EndsTag cs) (h : Spells cs ts) :
      Spells (name ++ cs) (.tag (String.ofList name) :: ts)

/-- No token starts with this character in front of `back`. -/
structure StartsNothing (c : Char) (back : List Char) : Prop where
  single : c ∉ [' ', '\t', '!', '(', ')']
  noTag : isTagChar c = false
  noPair : c = '&' ∨ c = '|' → back.head? ≠ some c

/-- The character between `front` and `back` is no blank, no sign and no part of one, and in no
tag. -/
structure Misplaced (front : List Char) (c : Char) (back : List Char) : Prop extends
    StartsNothing c back where
  noSecond : c = '&' ∨ c = '|' → front.getLast? ≠ some c

theorem endsTag_nil : EndsTag [] := fun _ h => nomatch h

theorem endsTag_dropWhile (cs : List Char) : EndsTag (cs.dropWhile isTagChar) := by
  intro c hc
  have hhead := List.head?_dropWhile_not isTagChar cs
  rwa [hc] at hhead

theorem EndsTag.append {cs cs' : List Char} (h : EndsTag cs) (h' : EndsTag cs') :
    EndsTag (cs ++ cs') := by
  intro c hc
  cases cs with
  | nil => exact h' c hc
  | cons d cs => exact h c hc

/-! ## Cutting a text -/

theorem constraintTokensOf_blank {c : Char} (h : c = ' ' ∨ c = '\t') (cs : List Char) :
    constraintTokensOf (c :: cs) = constraintTokensOf cs := by
  rcases h with rfl | rfl <;> rw [constraintTokensOf]

theorem constraintTokensOf_sign {text : List Char} {t : ConstraintToken} (h : (text, t) ∈ signs)
    (cs : List Char) : constraintTokensOf (text ++ cs) = t :: constraintTokensOf cs := by
  simp only [signs, List.mem_cons, Prod.mk.injEq, List.not_mem_nil, or_false] at h
  rcases h with ⟨rfl, rfl⟩ | ⟨rfl, rfl⟩ | ⟨rfl, rfl⟩ | ⟨rfl, rfl⟩ | ⟨rfl, rfl⟩ <;>
    simp only [List.cons_append, List.nil_append, constraintTokensOf]

theorem constraintTokensOf_tag {c : Char} (h : isTagChar c = true) (cs : List Char) :
    constraintTokensOf (c :: cs) = .tag (String.ofList (c :: cs.takeWhile isTagChar)) ::
      constraintTokensOf (cs.dropWhile isTagChar) := by
  have hne {d : Char} (hd : isTagChar d = false) : c ≠ d := by
    rintro rfl
    exact Bool.noConfusion (h.symm.trans hd)
  rw [constraintTokensOf]
  · simp [h]
  · exact hne (by decide)
  · exact hne (by decide)
  · exact hne (by decide)
  · exact hne (by decide)
  · exact hne (by decide)
  · exact fun _ hc _ => hne (by decide) hc
  · exact fun _ hc _ => hne (by decide) hc

theorem constraintTokensOf_startsNothing {c : Char} {back : List Char} (h : StartsNothing c back) :
    constraintTokensOf (c :: back) = [.closing, .closing] := by
  obtain ⟨hsingle, htag, hpair⟩ := h
  simp only [List.mem_cons, List.not_mem_nil, or_false, not_or] at hsingle
  obtain ⟨hspace, htab, hnot, hopening, hclosing⟩ := hsingle
  rw [constraintTokensOf]
  · simp [htag]
  · exact hspace
  · exact htab
  · exact hnot
  · exact hopening
  · exact hclosing
  · rintro cs rfl rfl
    exact hpair (Or.inl rfl) rfl
  · rintro cs rfl rfl
    exact hpair (Or.inr rfl) rfl

/-- Cutting a text gives back the tokens that it spells, and goes on behind them. -/
theorem Spells.constraintTokensOf_append {cs : List Char} {ts : List ConstraintToken}
    (h : Spells cs ts) {rest : List Char} (hrest : EndsTag rest) :
    constraintTokensOf (cs ++ rest) = ts ++ constraintTokensOf rest := by
  induction h with
  | nil => rfl
  | blank hc _ ih => rw [List.cons_append, constraintTokensOf_blank hc, ih]
  | sign hsign _ ih => rw [List.append_assoc, constraintTokensOf_sign hsign, ih, List.cons_append]
  | @tag name cs ts hname hchars hend _ ih =>
    obtain ⟨c, name, rfl⟩ := List.exists_cons_of_ne_nil hname
    have htail : ∀ d ∈ name, isTagChar d = true := fun d hd => hchars d (List.mem_cons_of_mem c hd)
    have htake : (cs ++ rest).takeWhile isTagChar = [] ∧
        (cs ++ rest).dropWhile isTagChar = cs ++ rest := by
      cases hcs : cs ++ rest with
      | nil => exact ⟨rfl, rfl⟩
      | cons e more =>
        have he : isTagChar e = false := hend.append hrest e (by rw [hcs]; rfl)
        exact ⟨List.takeWhile_cons_of_neg (by simp [he]), List.dropWhile_cons_of_neg (by simp [he])⟩
    rw [List.append_assoc, List.cons_append, constraintTokensOf_tag (hchars c List.mem_cons_self),
      List.takeWhile_append_of_pos htail, List.dropWhile_append_of_pos htail, htake.1, htake.2, ih,
      List.append_nil, List.cons_append]

theorem Spells.constraintTokensOf_eq {cs : List Char} {ts : List ConstraintToken}
    (h : Spells cs ts) : constraintTokensOf cs = ts := by
  have happend := h.constraintTokensOf_append endsTag_nil
  rwa [List.append_nil, constraintTokensOf, List.append_nil] at happend

/-! ## Where cutting stops -/

/-- The text is `front`, which spells tokens, and `rest`, with which no token starts. -/
structure Divides (cs front rest : List Char) (ts : List ConstraintToken) : Prop where
  text : cs = front ++ rest
  spells : Spells front ts
  stops : ∀ bad back, rest = bad :: back → StartsNothing bad back

theorem Divides.endsTag_rest {cs front rest : List Char} {ts : List ConstraintToken}
    (h : Divides cs front rest ts) : EndsTag rest := by
  intro c hc
  obtain ⟨back, hback⟩ := List.head?_eq_some_iff.mp hc
  exact (h.stops c back hback).noTag

theorem Divides.sign {cs front rest : List Char} {ts : List ConstraintToken}
    (h : Divides cs front rest ts) (text : List Char) (t : ConstraintToken)
    (hsign : (text, t) ∈ signs) :
    Divides (text ++ cs) (text ++ front) rest (t :: ts) where
  text := by rw [h.text, List.append_assoc]
  spells := .sign hsign h.spells
  stops := h.stops

theorem exists_divides (cs : List Char) : ∃ front rest ts, Divides cs front rest ts := by
  induction cs using constraintTokensOf.induct with
  | case1 => exact ⟨[], [], [], rfl, .nil, fun _ _ h => nomatch h⟩
  | case2 cs ih =>
    obtain ⟨front, rest, ts, h⟩ := ih
    exact ⟨' ' :: front, rest, ts, congrArg _ h.text, .blank (Or.inl rfl) h.spells, h.stops⟩
  | case3 cs ih =>
    obtain ⟨front, rest, ts, h⟩ := ih
    exact ⟨'\t' :: front, rest, ts, congrArg _ h.text, .blank (Or.inr rfl) h.spells, h.stops⟩
  | case4 cs ih =>
    obtain ⟨front, rest, ts, h⟩ := ih
    exact ⟨_, _, _, h.sign ['!'] .not (by simp [signs])⟩
  | case5 cs ih =>
    obtain ⟨front, rest, ts, h⟩ := ih
    exact ⟨_, _, _, h.sign ['('] .opening (by simp [signs])⟩
  | case6 cs ih =>
    obtain ⟨front, rest, ts, h⟩ := ih
    exact ⟨_, _, _, h.sign [')'] .closing (by simp [signs])⟩
  | case7 cs ih =>
    obtain ⟨front, rest, ts, h⟩ := ih
    exact ⟨_, _, _, h.sign ['&', '&'] .and (by simp [signs])⟩
  | case8 cs ih =>
    obtain ⟨front, rest, ts, h⟩ := ih
    exact ⟨_, _, _, h.sign ['|', '|'] .or (by simp [signs])⟩
  | case9 c cs _ _ _ _ _ _ _ htag ih =>
    obtain ⟨front, rest, ts, h⟩ := ih
    have hchars : ∀ d ∈ c :: cs.takeWhile isTagChar, isTagChar d = true := by
      intro d hd
      rcases List.mem_cons.mp hd with rfl | hd
      · exact htag
      · exact List.mem_takeWhile_imp hd
    -- `front` begins behind the tag, where no further character of a tag stands
    have hend : EndsTag front := by
      intro d hd
      refine endsTag_dropWhile cs d ?_
      rw [h.text, List.head?_append, hd]
      rfl
    refine ⟨(c :: cs.takeWhile isTagChar) ++ front, rest, _, ?_,
      .tag (by simp) hchars hend h.spells, h.stops⟩
    rw [List.append_assoc, ← h.text, List.cons_append, List.takeWhile_append_dropWhile]
  | case10 c cs hspace htab hnot hopening hclosing hand hor htag =>
    refine ⟨[], c :: cs, [], rfl, .nil, ?_⟩
    rintro bad back heq
    obtain ⟨rfl, rfl⟩ := List.cons.inj heq
    refine ⟨?_, by simpa using htag, ?_⟩
    · simp only [List.mem_cons, List.not_mem_nil, or_false, not_or]
      exact ⟨hspace, htab, hnot, hopening, hclosing⟩
    rintro hpair hhead
    obtain ⟨back, rfl⟩ := List.head?_eq_some_iff.mp hhead
    rcases hpair with rfl | rfl
    · exact hand back rfl rfl
    · exact hor back rfl rfl

/-! ## Misplaced characters -/

theorem Misplaced.behind {piece front back : List Char} {c : Char}
    (h : Misplaced (piece ++ front) c back) : Misplaced front c back := by
  refine ⟨h.toStartsNothing, fun hc hlast => h.noSecond hc ?_⟩
  rw [List.getLast?_append, hlast]
  rfl

/-- A character of a text stands in its first piece or behind it. -/
theorem append_eq_append_cons {α : Type} {piece cs front back : List α} {c : α}
    (h : piece ++ cs = front ++ c :: back) :
    (∃ front', front = piece ++ front' ∧ cs = front' ++ c :: back) ∨
      ∃ more, piece = front ++ c :: more ∧ back = more ++ cs := by
  rcases List.append_eq_append_iff.mp h with ⟨front', hfront, hcs⟩ | ⟨more, hpiece, hmore⟩
  · exact Or.inl ⟨front', hfront, hcs⟩
  · cases more with
    | nil => exact Or.inl ⟨[], by simpa using hpiece.symm, hmore.symm⟩
    | cons d more =>
      obtain ⟨rfl, rfl⟩ := List.cons.inj hmore
      exact Or.inr ⟨more, hpiece, rfl⟩

theorem not_misplaced_in_sign {text front more cs : List Char} {c : Char} {t : ConstraintToken}
    (hsign : (text, t) ∈ signs) (htext : text = front ++ c :: more) :
    ¬ Misplaced front c (more ++ cs) := by
  intro h
  have hsingle {d : Char} (hd : d ∈ [' ', '\t', '!', '(', ')']) (htext : [d] = front ++ c :: more) :
      False := by
    have hmem : c ∈ [d] := by simp [htext]
    rw [List.mem_singleton.mp hmem] at h
    exact h.single hd
  have hpair {d : Char} (hd : d = '&' ∨ d = '|') (htext : [d, d] = front ++ c :: more) : False := by
    have hmem : c ∈ [d, d] := by simp [htext]
    obtain rfl : c = d := by simpa using hmem
    cases front with
    | nil =>
      obtain rfl : [c] = more := (List.cons.inj htext).2
      exact h.noPair hd rfl
    | cons e front =>
      obtain ⟨rfl, htail⟩ := List.cons.inj htext
      cases front with
      | nil => exact h.noSecond hd rfl
      | cons e front => simp at htail
  simp only [signs, List.mem_cons, Prod.mk.injEq, List.not_mem_nil, or_false] at hsign
  rcases hsign with ⟨rfl, rfl⟩ | ⟨rfl, rfl⟩ | ⟨rfl, rfl⟩ | ⟨rfl, rfl⟩ | ⟨rfl, rfl⟩
  · exact hsingle (by simp) htext
  · exact hsingle (by simp) htext
  · exact hsingle (by simp) htext
  · exact hpair (Or.inl rfl) htext
  · exact hpair (Or.inr rfl) htext

/-- In a text that spells tokens no character is misplaced. -/
theorem Spells.not_misplaced {cs : List Char} {ts : List ConstraintToken} (h : Spells cs ts)
    {front back : List Char} {c : Char} (hcs : cs = front ++ c :: back) :
    ¬ Misplaced front c back := by
  induction h generalizing front with
  | nil => simp at hcs
  | @blank d cs ts hd _ ih =>
    intro hmisplaced
    rcases append_eq_append_cons (show [d] ++ cs = _ from hcs) with
      ⟨front', rfl, hbehind⟩ | ⟨more, hpiece, _⟩
    · exact ih hbehind hmisplaced.behind
    · have hmem : c ∈ [d] := by simp [hpiece]
      rw [List.mem_singleton.mp hmem] at hmisplaced
      rcases hd with rfl | rfl <;> exact hmisplaced.single (by simp)
  | sign hsign _ ih =>
    rcases append_eq_append_cons hcs with ⟨front', rfl, hbehind⟩ | ⟨more, hpiece, rfl⟩
    · exact fun hmisplaced => ih hbehind hmisplaced.behind
    · exact not_misplaced_in_sign hsign hpiece
  | tag hname hchars hend _ ih =>
    intro hmisplaced
    rcases append_eq_append_cons hcs with ⟨front', rfl, hbehind⟩ | ⟨more, hpiece, _⟩
    · exact ih hbehind hmisplaced.behind
    · have htag := hchars c (by simp [hpiece])
      exact Bool.noConfusion (htag.symm.trans hmisplaced.noTag)

/-! ## Parentheses -/

mutual

theorem OrPhrase.balanced (o : OrPhrase) :
    o.tokens.count ConstraintToken.opening = o.tokens.count ConstraintToken.closing := by
  cases o with
  | one a => exact a.balanced
  | more before last => simp [OrPhrase.tokens, before.balanced, last.balanced]

theorem AndPhrase.balanced (a : AndPhrase) :
    a.tokens.count ConstraintToken.opening = a.tokens.count ConstraintToken.closing := by
  cases a with
  | one u => exact u.balanced
  | more before last => simp [AndPhrase.tokens, before.balanced, last.balanced]

theorem UnaryPhrase.balanced (u : UnaryPhrase) :
    u.tokens.count ConstraintToken.opening = u.tokens.count ConstraintToken.closing := by
  cases u with
  | not u => simp [UnaryPhrase.tokens, u.balanced]
  | group inner => simp [UnaryPhrase.tokens, inner.balanced]
  | tag name => simp [UnaryPhrase.tokens]

end

theorem Spells.count_parentheses {cs : List Char} {ts : List ConstraintToken} (h : Spells cs ts) :
    ts.count ConstraintToken.opening = cs.count '(' ∧ ts.count ConstraintToken.closing =
      cs.count ')' := by
  induction h with
  | nil => simp
  | blank hc _ ih => rcases hc with rfl | rfl <;> simpa using ih
  | sign hsign _ ih =>
    simp only [signs, List.mem_cons, Prod.mk.injEq, List.not_mem_nil, or_false] at hsign
    rcases hsign with ⟨rfl, rfl⟩ | ⟨rfl, rfl⟩ | ⟨rfl, rfl⟩ | ⟨rfl, rfl⟩ | ⟨rfl, rfl⟩ <;>
      simpa using ih
  | @tag name cs ts hname hchars hend _ ih =>
    have hnone {c : Char} (hc : isTagChar c = false) : name.count c = 0 :=
      List.count_eq_zero.mpr fun hmem => Bool.noConfusion ((hchars c hmem).symm.trans hc)
    have hopening : name.count '(' = 0 := hnone (by decide)
    have hclosing : name.count ')' = 0 := hnone (by decide)
    simpa [hopening, hclosing] using ih

theorem Platform.allowsExpression_congr (p : Platform) {text text' : String}
    (h : constraintTokens text = constraintTokens text') :
    p.allowsExpression text = p.allowsExpression text' := by
  rw [Platform.allowsExpression, h, Platform.allowsExpression]

/-- A text with a misplaced character is divided in front of it, or further to the front. -/
theorem Divides.of_misplaced {cs front back spelled rest : List Char} {c : Char}
    {ts : List ConstraintToken} (hcs : cs = front ++ c :: back) (hc : Misplaced front c back)
    (h : Divides cs spelled rest ts) : spelled <+: front ∧ rest ≠ [] := by
  constructor
  · rcases append_eq_append_cons (h.text.symm.trans hcs) with
      ⟨front', hfront, _⟩ | ⟨more, hspelled, hback⟩
    · exact ⟨front', hfront.symm⟩
    -- the character would stand in the part that spells tokens
    · refine absurd ⟨⟨hc.single, hc.noTag, fun hsign hhead => hc.noPair hsign ?_⟩, hc.noSecond⟩
        (h.spells.not_misplaced hspelled)
      rw [hback, List.head?_append, hhead]
      rfl
  · rintro rfl
    have hwhole : spelled = front ++ c :: back := by rw [← hcs, h.text, List.append_nil]
    exact h.spells.not_misplaced hwhole hc

/-- **Main statement**: a text with a misplaced character means what stands in front of the
first one, closed by two parentheses. So it allows nothing, unless exactly two parentheses
are open there. -/
theorem Platform.misplaced_counts_as_closing (p : Platform) {text : String} {front back : List Char}
    {c : Char} (htext : text.toList = front ++ c :: back) (hc : Misplaced front c back) :
    ∃ spelled ts bad behind, spelled <+: front ∧ text.toList = spelled ++ bad :: behind ∧
      Spells spelled ts ∧ StartsNothing bad behind ∧
      p.allowsExpression text = p.allowsExpression (String.ofList (spelled ++ [')', ')'])) ∧
      (spelled.count '(' ≠ spelled.count ')' + 2 → p.allowsExpression text = false) := by
  obtain ⟨spelled, rest, ts, hdivides⟩ := exists_divides text.toList
  obtain ⟨hstart, hrest⟩ := hdivides.of_misplaced htext hc
  obtain ⟨bad, behind, rfl⟩ := List.exists_cons_of_ne_nil hrest
  have hbad := hdivides.stops bad behind rfl
  have htokens : constraintTokens text = ts ++ [.closing, .closing] := by
    rw [constraintTokens, hdivides.text,
      hdivides.spells.constraintTokensOf_append hdivides.endsTag_rest,
      constraintTokensOf_startsNothing hbad]
  have hclosed : constraintTokens (String.ofList (spelled ++ [')', ')'])) =
      ts ++ [.closing, .closing] := by
    have hend : EndsTag [')', ')'] := by
      intro d hd
      rw [← Option.some.inj hd]
      decide
    rw [constraintTokens, String.toList_ofList, hdivides.spells.constraintTokensOf_append hend]
    simp [constraintTokensOf]
  refine ⟨spelled, ts, bad, behind, hstart, hdivides.text, hdivides.spells, hbad,
    p.allowsExpression_congr (htokens.trans hclosed.symm), fun hcount => ?_⟩
  rw [← Bool.not_eq_true, p.allowsExpression_iff]
  rintro ⟨o, ho, _⟩
  refine hcount ?_
  have hbalanced := o.balanced
  obtain ⟨hopening, hclosing⟩ := hdivides.spells.count_parentheses
  rw [ho, htokens] at hbalanced
  simpa [hopening, hclosing] using hbalanced

/-! ## An unknown character behind two open parentheses -/

theorem misplaced_hash : Misplaced " ((linux".toList '#' [] := by
  refine ⟨⟨by decide, by decide, by decide⟩, by decide⟩

theorem Platform.misplaced_counts_as_closing_hash :
    ∃ spelled, spelled <+: " ((linux".toList ∧ Platform.host.allowsExpression " ((linux#" =
      Platform.host.allowsExpression (String.ofList (spelled ++ [')', ')'])) := by
  have htext : " ((linux#".toList = " ((linux".toList ++ '#' :: [] := by decide
  obtain ⟨spelled, _, _, _, hstart, _, _, _, heq, _⟩ :=
    Platform.host.misplaced_counts_as_closing htext misplaced_hash
  exact ⟨spelled, hstart, heq⟩

/-- A misplaced character does not always make a constraint allow nothing. -/
theorem misplaced_hash_allowed :
    ¬ ∀ (p : Platform) (text : String) (front back : List Char) (c : Char),
      text.toList = front ++ c :: back → Misplaced front c back →
      p.allowsExpression text = false := by
  intro h
  have hfalse := h .host " ((linux#" _ _ _ (by decide) misplaced_hash
  have htrue : Platform.host.allowsExpression " ((linux#" = true := by decide +kernel
  exact Bool.noConfusion (htrue.symm.trans hfalse)

end CallAtlas.Build
