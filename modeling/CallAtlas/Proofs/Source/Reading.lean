import CallAtlas.Source.StmtRules

/-!
# Parsers take tokens in order

A parser takes tokens off the front of a list, so what it reads first is written first. `Takes` says
this of a parser and of the places that what it reads has: in their order they are among the places
of the tokens that were taken. A parser in the middle of a rule goes on from what the rule has read
before it, so there is a list of places in front.

Every way to put parsers together keeps this. Parsers whose results have no places are `Quiet`, and
this is all that has to be known of most of them.
-/

set_option autoImplicit false

namespace CallAtlas.Source

/-! ## Parsers -/

section Takes

variable {α β : Type} {pre : List Position} {p q : Parser α} {f : α → Parser β}
  {D : α → List Position} {F : β → List Position}

/-- The parser takes tokens off the front. The places of what it reads are, in order, some of those
in front and of the tokens that are taken. -/
def Takes (pre : List Position) (p : Parser α) (D : α → List Position) : Prop :=
  ∀ ts a rest, p.run ts = some (a, rest) →
    ∃ taken, ts.map Token.pos = taken ++ rest.map Token.pos ∧ (D a).Sublist (pre ++ taken)

/-- The parser takes tokens, and what it reads has no places. -/
abbrev Quiet (p : Parser α) : Prop := Takes [] p fun _ => []

theorem Takes.pure {a : α} (h : (D a).Sublist pre) : Takes pre (pure a) D := by
  intro ts a' rest hrun
  cases hrun
  exact ⟨[], rfl, by rwa [List.append_nil]⟩

theorem Takes.quiet (hp : Takes [] p D) : Quiet p := by
  intro ts a rest hrun
  obtain ⟨taken, htaken, _⟩ := hp ts a rest hrun
  exact ⟨taken, htaken, List.nil_sublist _⟩

theorem Takes.failure : Takes pre (failure : Parser α) D := by
  intro ts a rest hrun
  cases hrun

/-- One parser behind another: the second goes on from all that has been read. -/
theorem Takes.andThen (hp : Takes pre p D) (hf : ∀ a, Takes (D a) (f a) F) :
    Takes pre (p >>= f) F := by
  intro ts b rest hrun
  rw [StateT.run_bind] at hrun
  obtain ⟨⟨a, mid⟩, ha, hb⟩ := Option.bind_eq_some_iff.mp hrun
  obtain ⟨taken, htaken, hD⟩ := hp ts a mid ha
  obtain ⟨taken', htaken', hF⟩ := hf a mid b rest hb
  refine ⟨taken ++ taken', ?_, ?_⟩
  · rw [htaken, htaken', List.append_assoc]
  · rw [← List.append_assoc]
    exact hF.trans (hD.append_right taken')

/-- What a parser reads is behind what was read before. -/
theorem Takes.behind (hp : Takes [] p D) : Takes pre p fun a => pre ++ D a := by
  intro ts a rest hrun
  obtain ⟨taken, htaken, hD⟩ := hp ts a rest hrun
  exact ⟨taken, htaken, hD.append_left pre⟩

theorem Takes.bind (hp : Takes [] p D) (hf : ∀ a, Takes (pre ++ D a) (f a) F) :
    Takes pre (p >>= f) F :=
  hp.behind.andThen hf

theorem Takes.skip (hp : Quiet p) (hf : ∀ a, Takes pre (f a) F) : Takes pre (p >>= f) F :=
  hp.bind fun a => by
    rw [List.append_nil]
    exact hf a

theorem Takes.given {a : α} (h : Takes pre (f a) F) : Takes pre (Pure.pure a >>= f) F := by
  rwa [pure_bind]

theorem Takes.orElse (hp : Takes pre p D) (hq : Takes pre q D) : Takes pre (p <|> q) D := by
  intro ts a rest hrun
  have hor : (p.run ts <|> q.run ts) = some (a, rest) := hrun
  cases hrunp : p.run ts with
  | none =>
    rw [hrunp] at hor
    exact hq ts a rest hor
  | some r =>
    rw [hrunp] at hor
    cases hor
    exact hp ts a rest hrunp

theorem Takes.orNone {f : Option α → Parser β} (hp : Takes pre p D)
    (hsome : ∀ a, Takes (D a) (f (some a)) F) (hnone : Takes pre (f none) F) :
    Takes pre (optionalOf p >>= f) F := by
  intro ts b rest hrun
  rw [StateT.run_bind] at hrun
  obtain ⟨⟨o, mid⟩, ho, hb⟩ := Option.bind_eq_some_iff.mp hrun
  have hor : ((p >>= fun a => Pure.pure (some a)).run ts <|> some (none, ts)) = some (o, mid) := ho
  cases hrunp : p.run ts with
  | none =>
    rw [StateT.run_bind, hrunp] at hor
    cases hor
    exact hnone ts b rest hb
  | some r =>
    rw [StateT.run_bind, hrunp] at hor
    cases hor
    have hbind := hp.andThen (f := fun a => f (some a)) hsome
    apply hbind ts b rest
    rw [StateT.run_bind, hrunp]
    exact hb

theorem Takes.optional {f : Option α → Parser β} (hp : Takes [] p D)
    (hsome : ∀ a, Takes (pre ++ D a) (f (some a)) F) (hnone : Takes pre (f none) F) :
    Takes pre (optionalOf p >>= f) F :=
  hp.behind.orNone hsome hnone

/-- Something that may be missing, with a sign that tells. -/
theorem Takes.unless {γ : Type} {c : Prop} [Decidable c] {build : α → γ} {f : List γ → Parser β}
    {E : γ → List Position} (hp : Takes [] p fun a => E (build a))
    (hf : ∀ items, Takes (pre ++ items.flatMap E) (f items) F) :
    Takes pre (if c then Pure.pure [] >>= f else p >>= fun a => Pure.pure [build a] >>= f) F := by
  split
  · apply Takes.given
    simpa using hf []
  · apply hp.bind
    intro a
    apply Takes.given
    simpa using hf [build a]

/-! ## Tokens -/

theorem quiet_peek : Quiet peek := by
  intro ts t rest hrun
  cases ts with
  | nil => cases hrun
  | cons u ts =>
    cases hrun
    exact ⟨[], rfl, List.nil_sublist _⟩

theorem quiet_advance : Quiet advance := by
  intro ts t rest hrun
  cases ts with
  | nil => cases hrun
  | cons u ts =>
    cases hrun
    exact ⟨[t.pos], rfl, List.nil_sublist _⟩

theorem quiet_get : Quiet (get : Parser (List Token)) := by
  intro ts a rest hrun
  cases hrun
  exact ⟨[], rfl, List.nil_sublist _⟩

theorem quiet_pure (a : α) : Quiet (pure a : Parser α) := .pure (List.nil_sublist _)

theorem Quiet.bind (hp : Quiet p) (hf : ∀ a, Quiet (f a)) : Quiet (p >>= f) := .skip hp hf

theorem quiet_atSign (s : String) : Quiet (atSign s) := quiet_peek.bind fun _ => quiet_pure _

theorem quiet_atWord (w : String) : Quiet (atWord w) := quiet_peek.bind fun _ => quiet_pure _

theorem quiet_onLine (lines : Bool) : Quiet (onLine lines) := quiet_peek.bind fun _ => quiet_pure _

theorem quiet_atSignOn (lines : Bool) (s : String) : Quiet (atSignOn lines s) :=
  (quiet_atSign s).bind fun _ => (quiet_onLine lines).bind fun _ => quiet_pure _

theorem quiet_sign (s : String) : Quiet (sign s) := by
  apply (quiet_atSign s).bind
  intro at_sign
  split
  · exact quiet_advance.bind fun _ => quiet_pure _
  · exact .failure

theorem quiet_keyword (w : String) : Quiet (keyword w) := by
  apply (quiet_atWord w).bind
  intro at_word
  split
  · exact quiet_advance.bind fun _ => quiet_pure _
  · exact .failure

theorem quiet_anyName : Quiet anyName := by
  apply quiet_advance.bind
  intro t
  split
  · exact quiet_pure _
  · exact .failure

theorem quiet_nameExcept (reserved : List String) : Quiet (nameExcept reserved) := by
  apply quiet_anyName.bind
  intro n
  split
  · exact .failure
  · exact quiet_pure _

theorem quiet_textLiteral : Quiet textLiteral := by
  apply quiet_advance.bind
  intro t
  split
  · exact quiet_pure _
  · exact .failure

theorem quiet_optionalSign (s : String) : Quiet (optionalSign s) := by
  apply (quiet_atSign s).bind
  intro at_sign
  split
  · exact quiet_advance.bind fun _ => quiet_pure _
  · exact quiet_pure _

theorem quiet_terminator : Quiet terminator := by
  apply quiet_peek.bind
  intro t
  split
  · exact quiet_advance.bind fun _ => quiet_pure _
  · split
    · exact quiet_pure _
    · exact .failure

theorem keyword_run {w : String} {t : Token} {ts rest : List Token} {u : Unit}
    (h : (keyword w).run (t :: ts) = some (u, rest)) : rest = ts := by
  unfold keyword at h
  rw [StateT.run_bind] at h
  obtain ⟨⟨at_word, mid⟩, hat, h⟩ := Option.bind_eq_some_iff.mp h
  cases hat
  dsimp only at h
  split at h
  · cases h
    rfl
  · cases h

/-- A word, with the place where it stands. -/
theorem Takes.start {w : String} {f : Token → Parser β} (hf : ∀ t, Takes (pre ++ [t.pos]) (f t) F) :
    Takes pre (peek >>= fun t => keyword w >>= fun _ => f t) F := by
  intro ts b rest hrun
  cases ts with
  | nil => cases hrun
  | cons t ts =>
    rw [StateT.run_bind] at hrun
    obtain ⟨⟨t', mid⟩, hpeek, hrun⟩ := Option.bind_eq_some_iff.mp hrun
    cases hpeek
    rw [StateT.run_bind] at hrun
    obtain ⟨⟨u, mid⟩, hkeyword, hrun⟩ := Option.bind_eq_some_iff.mp hrun
    rw [keyword_run hkeyword] at hrun
    obtain ⟨taken, htaken, hF⟩ := hf t ts b rest hrun
    refine ⟨t.pos :: taken, ?_, ?_⟩
    · rw [List.map_cons, htaken, List.cons_append]
    · rwa [List.append_assoc] at hF

/-! ## Several, one after another -/

theorem takes_optionalOf (hp : Takes [] p D) :
    Takes [] (optionalOf p) fun o => o.toList.flatMap D := by
  have hbind : Takes [] (optionalOf p >>= pure) fun o => o.toList.flatMap D :=
    hp.optional (fun a => .pure (by simp)) (.pure (List.nil_sublist _))
  rwa [bind_pure] at hbind

theorem takes_optionalOf_getD {γ : Type} {p : Parser (List γ)} {D : List γ → List Position}
    (hp : Takes [] p D) (hnil : D [] = []) : Takes [] (optionalOf p) fun o => D (o.getD []) := by
  have hbind : Takes [] (optionalOf p >>= pure) fun o => D (o.getD []) :=
    hp.optional (fun _ => .pure (List.Sublist.refl _)) (.pure (by simp [hnil]))
  rwa [bind_pure] at hbind

theorem quiet_optionalOf (hp : Quiet p) : Quiet (optionalOf p) := (takes_optionalOf hp).quiet

theorem takes_manyUpTo (hp : Takes [] p D) (fuel : Nat) :
    Takes [] (manyUpTo p fuel) fun items => items.flatMap D := by
  induction fuel with
  | zero => exact .pure (List.nil_sublist _)
  | succ fuel ih =>
    apply hp.optional
    · intro a
      apply ih.bind
      intro rest
      exact .pure (by simp)
    · exact .pure (List.nil_sublist _)

theorem takes_many (hp : Takes [] p D) : Takes [] (many p) fun items => items.flatMap D :=
  .skip quiet_get fun _ => takes_manyUpTo hp _

theorem takes_sepBy1 {separator : Parser Unit} (hseparator : Quiet separator) (hp : Takes [] p D) :
    Takes [] (sepBy1 separator p) fun items => items.flatMap D := by
  apply hp.bind
  intro first
  apply (takes_many (.skip hseparator fun _ => hp)).bind
  intro rest
  exact .pure (by simp)

theorem takes_commaSep1 (hp : Takes [] p D) : Takes [] (commaSep1 p) fun items => items.flatMap D :=
  takes_sepBy1 (quiet_sign _) hp

theorem quiet_commaSep1 (hp : Quiet p) : Quiet (commaSep1 p) := (takes_commaSep1 hp).quiet

theorem takes_commaList (hp : Takes [] p D) :
    Takes [] (commaList p) fun items => items.flatMap D := by
  apply (takes_commaSep1 hp).optional
  · intro items
    exact .skip (quiet_optionalSign _) fun _ => .pure (by simp)
  · exact .skip (quiet_optionalSign _) fun _ => .pure (List.nil_sublist _)

theorem takes_lineList1 (hp : Takes [] p D) :
    Takes [] (lineList1 p) fun items => items.flatMap D := by
  apply (takes_sepBy1 quiet_terminator hp).bind
  intro items
  exact .skip (quiet_optionalOf quiet_terminator) fun _ => .pure (by simp)

theorem takes_spanned (hp : Takes [] p D) : Takes [] (spanned p) fun x => D x.1 := by
  apply Takes.skip quiet_get
  intro before
  apply hp.bind
  intro a
  exact .skip quiet_get fun _ => .pure (by simp)

theorem takes_oneOrGroup (hp : Takes [] p D) :
    Takes [] (Grammar.oneOrGroup p) fun items => items.flatMap D := by
  have hitem : Takes [] (do
      let item ← p
      terminator
      pure item) D := hp.bind fun item => .skip quiet_terminator fun _ => .pure (by simp)
  apply Takes.skip (quiet_optionalSign _)
  intro group
  split
  · apply (takes_many hitem).bind
    intro items
    exact .skip (quiet_sign _) fun _ => .pure (by simp)
  · exact hp.bind fun item => .pure (by simp)

end Takes

end CallAtlas.Source
