import CallAtlas.Proofs.Text
import CallAtlas.Source.Token
import Mathlib.Data.List.Basic
import Mathlib.Data.List.Pairwise

/-!
# The places of tokens

Every token takes at least one character off the text, whatever form it has: each reader of `Token`
gives back less than it was given (`Shortens`). So the tokens of a file start at places that grow,
by the number of characters strictly and by the line at least weakly.
-/

set_option autoImplicit false

namespace CallAtlas.Source

/-- The first place comes before the second one. -/
structure Position.Before (a b : Position) : Prop where
  offset : a.offset < b.offset
  line : a.line ≤ b.line

theorem Position.Before.asymm {a b : Position} (h : a.Before b) : ¬ b.Before a :=
  fun h' => Nat.lt_asymm h.offset h'.offset

/-! ## Readers -/

/-- The reader takes at least one character. -/
def Shortens (read : List Char → Option (List Char)) : Prop :=
  ∀ cs rest, read cs = some rest → rest.length < cs.length

theorem length_moreDigits_le (p : Char → Bool) (cs : List Char) :
    (moreDigits p cs).length ≤ cs.length := by
  fun_induction moreDigits p cs <;> simp_all <;> omega

theorem shortens_digits (p : Char → Bool) : Shortens (digits p) := by
  intro cs rest h
  unfold digits at h
  split at h
  · split at h
    · cases h
      exact Nat.lt_succ_of_le (length_moreDigits_le p _)
    · cases h
  · cases h

theorem shortens_oneOf (choices : List Char) : Shortens (oneOf choices) := by
  intro cs rest h
  unfold oneOf at h
  split at h
  · split at h
    · cases h
      exact Nat.lt_succ_self _
    · cases h
  · cases h

/-- What is read if it is there leaves no more than there was. -/
theorem Shortens.length_getD_le {read : List Char → Option (List Char)} (h : Shortens read)
    (cs : List Char) : ((read cs).getD cs).length ≤ cs.length := by
  cases hread : read cs with
  | none => exact Nat.le_refl _
  | some rest => exact Nat.le_of_lt (h cs rest hread)

theorem length_optionally_le (choices cs : List Char) :
    (optionally choices cs).length ≤ cs.length :=
  (shortens_oneOf choices).length_getD_le cs

/-- Two readers one behind the other, with something between them that does not lengthen the
text. -/
theorem Shortens.bind {read read' : List Char → Option (List Char)} {f : List Char → List Char}
    (h : Shortens read) (h' : Shortens read') (hf : ∀ cs, (f cs).length ≤ cs.length) :
    Shortens fun cs => (read cs).bind fun rest => read' (f rest) := by
  intro cs rest hrest
  obtain ⟨mid, hmid, hrest⟩ := Option.bind_eq_some_iff.mp hrest
  have hlt := h cs mid hmid
  have hlt' := h' _ rest hrest
  have hle := hf mid
  omega

/-- A reader, and something behind it that does not lengthen the text. -/
theorem Shortens.map {read : List Char → Option (List Char)} {f : List Char → List Char}
    (h : Shortens read) (hf : ∀ cs, (f cs).length ≤ cs.length) :
    Shortens fun cs => (read cs).bind fun rest => some (f rest) := by
  intro cs rest hrest
  obtain ⟨mid, hmid, hrest⟩ := Option.bind_eq_some_iff.mp hrest
  cases hrest
  exact Nat.lt_of_le_of_lt (hf mid) (h cs mid hmid)

theorem shortens_exponent (marks : List Char) : Shortens (exponent marks) :=
  (shortens_oneOf marks).bind (shortens_digits _) (length_optionally_le _)

theorem length_optionalExponent_le (marks cs : List Char) :
    (optionalExponent marks cs).length ≤ cs.length :=
  (shortens_exponent marks).length_getD_le cs

theorem length_optionalDigits_le (p : Char → Bool) (cs : List Char) :
    (optionalDigits p cs).length ≤ cs.length :=
  (shortens_digits p).length_getD_le cs

theorem shortens_basedInt (marks : List Char) (p : Char → Bool) : Shortens (basedInt marks p) := by
  intro cs rest h
  unfold basedInt at h
  split at h
  · have hlt := (shortens_oneOf marks).bind (shortens_digits p) (length_optionally_le ['_']) _ _ h
    exact Nat.lt_succ_of_lt hlt
  · cases h

theorem shortens_octalInt : Shortens octalInt := by
  intro cs rest h
  unfold octalInt at h
  split at h
  · rename_i cs
    have hlt := shortens_digits _ _ _ h
    have hle := length_optionally_le ['_'] (optionally ['o', 'O'] cs)
    have hle' := length_optionally_le ['o', 'O'] cs
    rw [List.length_cons]
    omega
  · cases h

theorem shortens_decimalInt : Shortens decimalInt := by
  intro cs rest h
  unfold decimalInt at h
  split at h
  · cases h
    exact Nat.lt_succ_self _
  · rename_i c cs _
    split at h
    · cases h
      have hle : ∀ cs : List Char,
          ((digits Text.isAsciiDigit (optionally ['_'] cs)).getD cs).length ≤ cs.length := by
        intro cs
        cases hread : digits Text.isAsciiDigit (optionally ['_'] cs) with
        | none => exact Nat.le_refl _
        | some rest =>
          exact Nat.le_trans (Nat.le_of_lt (shortens_digits _ _ _ hread))
            (length_optionally_le _ cs)
      exact Nat.lt_succ_of_le (hle cs)
    · cases h
  · cases h

theorem shortens_pointedFloat : Shortens pointedFloat :=
  (shortens_digits _).bind (f := id)
    ((shortens_oneOf ['.']).map fun cs =>
      Nat.le_trans (length_optionalExponent_le _ _) (length_optionalDigits_le Text.isAsciiDigit cs))
    fun _ => Nat.le_refl _

theorem shortens_scaledFloat : Shortens scaledFloat :=
  (shortens_digits _).bind (f := id) (shortens_exponent _) fun _ => Nat.le_refl _

theorem shortens_fractionFloat : Shortens fractionFloat :=
  (shortens_oneOf ['.']).bind (f := id)
    ((shortens_digits Text.isAsciiDigit).map (length_optionalExponent_le ['e', 'E']))
    fun _ => Nat.le_refl _

theorem shortens_hexFloat : Shortens hexFloat := by
  intro cs rest h
  unfold hexFloat at h
  split at h
  · obtain ⟨body, hbody, h⟩ := Option.bind_eq_some_iff.mp h
    obtain ⟨mantissa, hmantissa, h⟩ := Option.bind_eq_some_iff.mp h
    have hlt := shortens_oneOf _ _ _ hbody
    have hlt' := shortens_exponent _ _ _ h
    have hle : mantissa.length ≤ body.length := by
      split at hmantissa
      · rename_i digitsRest hdigits
        have hfirst := Nat.lt_of_lt_of_le (shortens_digits _ _ _ hdigits)
          (length_optionally_le ['_'] body)
        split at hmantissa
        · rename_i tail hpoint
          cases hmantissa
          have hpointed := shortens_oneOf _ _ _ hpoint
          have hmore := length_optionalDigits_le isHexDigit tail
          omega
        · cases hmantissa
          exact Nat.le_of_lt hfirst
      · exact Nat.le_of_lt ((shortens_oneOf ['.']).bind (f := id) (shortens_digits isHexDigit)
          (fun _ => Nat.le_refl _) _ _ hmantissa)
    rw [List.length_cons]
    omega
  · cases h

theorem shortens_of_mem_intForms {read : List Char → Option (List Char)} (h : read ∈ intForms) :
    Shortens read := by
  simp only [intForms, List.mem_cons, List.not_mem_nil, or_false] at h
  rcases h with rfl | rfl | rfl | rfl
  · exact shortens_basedInt _ _
  · exact shortens_decimalInt
  · exact shortens_octalInt
  · exact shortens_basedInt _ _

theorem shortens_of_mem_floatForms {read : List Char → Option (List Char)} (h : read ∈ floatForms) :
    Shortens read := by
  simp only [floatForms, List.mem_cons, List.not_mem_nil, or_false] at h
  rcases h with rfl | rfl | rfl | rfl
  · exact shortens_pointedFloat
  · exact shortens_scaledFloat
  · exact shortens_fractionFloat
  · exact shortens_hexFloat

theorem shortens_of_mem_imaginaryForms {read : List Char → Option (List Char)}
    (h : read ∈ imaginaryForms) : Shortens read := by
  obtain ⟨form, hform, rfl⟩ := List.mem_map.mp h
  have hshortens : Shortens form := by
    rcases List.mem_append.mp hform with hform | hform
    · rcases List.mem_cons.mp hform with rfl | hform
      · exact shortens_digits _
      · exact shortens_of_mem_intForms hform
    · exact shortens_of_mem_floatForms hform
  exact hshortens.bind (f := id) (shortens_oneOf ['i']) fun _ => Nat.le_refl _

theorem longer_eq {α : Type} (a b : Option (α × List Char)) : longer a b = a ∨ longer a b = b := by
  unfold longer
  split
  · exact Or.inr rfl
  · exact Or.inl rfl
  · split
    · exact Or.inr rfl
    · exact Or.inl rfl

/-- The longest reading is one of them. -/
theorem foldl_longer_mem {α : Type} (readings : List (Option (α × List Char)))
    (start : Option (α × List Char)) :
    readings.foldl longer start = start ∨ readings.foldl longer start ∈ readings := by
  induction readings generalizing start with
  | nil => exact Or.inl rfl
  | cons reading rest ih =>
    rw [List.foldl_cons]
    rcases ih (longer start reading) with h | h
    · rw [h]
      rcases longer_eq start reading with h | h
      · exact Or.inl h
      · rw [h]
        exact Or.inr List.mem_cons_self
    · exact Or.inr (List.mem_cons_of_mem _ h)

/-- A number is read by one of the forms of its kind. -/
theorem form_of_number {cs rest : List Char} {kind : TokenKind}
    (h : number cs = some (kind, rest)) : ∃ form, form cs = some rest ∧
      (kind = .int ∧ form ∈ intForms ∨ kind = .float ∧ form ∈ floatForms ∨
        kind = .imaginary ∧ form ∈ imaginaryForms) := by
  unfold number at h
  dsimp only at h
  rcases foldl_longer_mem _ none with hnone | hmem
  · rw [hnone] at h
    cases h
  · rw [h] at hmem
    simp only [List.mem_append, List.mem_map, Option.map_eq_some_iff, Prod.mk.injEq] at hmem
    rcases hmem with (⟨form, hform, _, hread, rfl, rfl⟩ | ⟨form, hform, _, hread, rfl, rfl⟩) |
      ⟨form, hform, _, hread, rfl, rfl⟩
    · exact ⟨form, hread, Or.inl ⟨rfl, hform⟩⟩
    · exact ⟨form, hread, Or.inr (Or.inl ⟨rfl, hform⟩)⟩
    · exact ⟨form, hread, Or.inr (Or.inr ⟨rfl, hform⟩)⟩

theorem length_lt_of_number {cs rest : List Char} {kind : TokenKind}
    (h : number cs = some (kind, rest)) : rest.length < cs.length := by
  obtain ⟨form, hread, ⟨_, hform⟩ | ⟨_, hform⟩ | ⟨_, hform⟩⟩ := form_of_number h
  · exact shortens_of_mem_intForms hform _ _ hread
  · exact shortens_of_mem_floatForms hform _ _ hread
  · exact shortens_of_mem_imaginaryForms hform _ _ hread

/-! ## Quoted literals and signs -/

theorem length_le_of_hexDigits {n : Nat} {cs rest : List Char} (h : hexDigits n cs = some rest) :
    rest.length ≤ cs.length := by
  fun_induction hexDigits n cs with
  | case1 cs =>
    cases h
    exact Nat.le_refl _
  | case2 n c cs hc ih => exact Nat.le_succ_of_le (ih h)
  | case3 => cases h
  | case4 => cases h

theorem length_le_of_textEscape {cs rest : List Char} (h : textEscape cs = some rest) :
    rest.length ≤ cs.length := by
  unfold textEscape at h
  split at h
  · exact Nat.le_succ_of_le (length_le_of_hexDigits h)
  · exact Nat.le_succ_of_le (length_le_of_hexDigits h)
  · exact Nat.le_succ_of_le (length_le_of_hexDigits h)
  · cases h
    exact Nat.le_succ _
  · cases h

theorem length_le_of_closeText {fuel : Nat} {cs rest : List Char}
    (h : closeText fuel cs = some rest) : rest.length ≤ cs.length := by
  induction fuel generalizing cs with
  | zero => simp [closeText] at h
  | succ fuel ih =>
    unfold closeText at h
    split at h
    · cases ‹fuel + 1 = 0›
    · rename_i cs heq
      cases heq
      obtain ⟨mid, hmid, h⟩ := Option.bind_eq_some_iff.mp h
      exact Nat.le_succ_of_le (Nat.le_trans (ih h) (length_le_of_textEscape hmid))
    · rename_i c cs _ heq
      cases heq
      split at h
      · cases h
        exact Nat.le_succ _
      · split at h
        · cases h
        · exact Nat.le_succ_of_le (ih h)
    · cases h

theorem length_le_of_closeRaw {cs rest : List Char} (h : closeRaw cs = some rest) :
    rest.length ≤ cs.length := by
  fun_induction closeRaw cs with
  | case1 c cs hc =>
    cases h
    exact Nat.le_succ _
  | case2 c cs hc ih => exact Nat.le_succ_of_le (ih h)
  | case3 => cases h

theorem length_le_of_runeEscape {cs rest : List Char} (h : runeEscape cs = some rest) :
    rest.length ≤ cs.length := by
  unfold runeEscape at h
  split at h
  · exact Nat.le_succ_of_le (length_le_of_hexDigits h)
  · exact Nat.le_succ_of_le (length_le_of_hexDigits h)
  · exact Nat.le_succ_of_le (length_le_of_hexDigits h)
  · split at h
    · cases h
      simp only [List.length_cons]
      omega
    · exact Nat.le_of_lt (shortens_oneOf _ _ _ h)
  · exact Nat.le_of_lt (shortens_oneOf _ _ _ h)

theorem length_le_of_closeRune {cs rest : List Char} (h : closeRune cs = some rest) :
    rest.length ≤ cs.length := by
  unfold closeRune at h
  split at h
  · obtain ⟨mid, hmid, h⟩ := Option.bind_eq_some_iff.mp h
    have hlt := shortens_oneOf _ _ _ h
    have hle := length_le_of_runeEscape hmid
    rw [List.length_cons]
    omega
  · split at h
    · cases h
    · exact Nat.le_succ_of_le (Nat.le_of_lt (shortens_oneOf _ _ _ h))
  · cases h

theorem shortens_closeSign : Shortens closeSign := by
  intro cs rest h
  obtain ⟨s, hs, hdrop⟩ := List.exists_of_findSome?_eq_some h
  rw [Text.dropPrefix?_eq_some_iff] at hdrop
  have hpos : ∀ s ∈ signs, 0 < s.toList.length := by decide
  rw [hdrop, List.length_append]
  exact Nat.lt_add_of_pos_left (hpos s hs)

theorem length_lt_of_oneToken {cs rest : List Char} {kind : TokenKind}
    (h : oneToken cs = some (kind, rest)) : rest.length < cs.length := by
  unfold oneToken at h
  split at h
  · cases h
  · rename_i c cs
    rw [List.length_cons, Nat.lt_succ_iff]
    split at h
    · cases h
      exact (List.dropWhile_sublist _).length_le
    · split at h
      · obtain ⟨_, hread, heq⟩ := Option.map_eq_some_iff.mp h
        cases heq
        exact length_le_of_closeText hread
      · split at h
        · obtain ⟨_, hread, heq⟩ := Option.map_eq_some_iff.mp h
          cases heq
          exact length_le_of_closeRaw hread
        · split at h
          · obtain ⟨_, hread, heq⟩ := Option.map_eq_some_iff.mp h
            cases heq
            exact length_le_of_closeRune hread
          · split at h
            · rename_i hnumber
              cases h
              exact Nat.le_of_lt_succ (length_lt_of_number hnumber)
            · obtain ⟨_, hread, heq⟩ := Option.map_eq_some_iff.mp h
              cases heq
              exact Nat.le_of_lt_succ (shortens_closeSign _ _ hread)

/-! ## The tokens of a file -/

/-- The tokens of a text start behind the place where it starts, and one behind the other. -/
theorem pairwise_tokensFrom {fuel : Nat} {pos : Position} {cs : List Char} {ts : List Token}
    (h : tokensFrom fuel pos cs = some ts) :
    (∀ t ∈ ts, pos.offset ≤ t.pos.offset ∧ pos.line ≤ t.pos.line) ∧
      (ts.map Token.pos).Pairwise Position.Before := by
  induction fuel generalizing pos cs ts with
  | zero => cases h
  | succ fuel ih =>
    unfold tokensFrom at h
    obtain ⟨⟨fresh, rest⟩, _, h⟩ := Option.bind_eq_some_iff.mp h
    dsimp only at h
    have hstart : ∀ gap : List Char, pos.offset ≤ (pos.advance gap).offset ∧
        pos.line ≤ (pos.advance gap).line := fun gap => ⟨Nat.le_add_right .., Nat.le_add_right ..⟩
    split at h
    · cases h
      refine ⟨?_, List.pairwise_singleton _ _⟩
      intro t ht
      obtain rfl := List.mem_singleton.mp ht
      exact hstart _
    · obtain ⟨⟨kind, tail⟩, htoken, h⟩ := Option.bind_eq_some_iff.mp h
      obtain ⟨more, hmore, h⟩ := Option.bind_eq_some_iff.mp h
      cases h
      obtain ⟨hbehind, hpairwise⟩ := ih hmore
      have hlt := length_lt_of_oneToken htoken
      -- the token has characters, so what follows it starts later
      have hbefore : ∀ t ∈ more, (pos.advance (consumed cs rest)).Before t.pos := by
        intro t ht
        obtain ⟨hoffset, hline⟩ := hbehind t ht
        have hlength : (consumed rest tail).length = rest.length - tail.length := by
          simp [consumed]
        refine ⟨?_, Nat.le_trans (Nat.le_add_right ..) hline⟩
        simp only [Position.advance, hlength] at hoffset ⊢
        omega
      constructor
      · intro t ht
        rcases List.mem_cons.mp ht with rfl | ht
        · exact hstart _
        · have hfirst := hstart (consumed cs rest)
          have hlater := hbefore t ht
          exact ⟨Nat.le_trans hfirst.1 (Nat.le_of_lt hlater.offset),
            Nat.le_trans hfirst.2 hlater.line⟩
      · rw [List.map_cons, List.pairwise_cons]
        refine ⟨?_, hpairwise⟩
        intro b hb
        obtain ⟨t, ht, rfl⟩ := List.mem_map.mp hb
        exact hbefore t ht

theorem pairwise_tokens? {source : String} {ts : List Token} (h : tokens? source = some ts) :
    (ts.map Token.pos).Pairwise Position.Before :=
  (pairwise_tokensFrom h).2

end CallAtlas.Source
