import CallAtlas.Build.Constraint

/-!
# The grammar of build constraints

    or    := and ('||' and)*
    and   := unary ('&&' unary)*
    unary := '!' unary | '(' or ')' | tag

A derivation is a tree (`OrPhrase`, `AndPhrase`, `UnaryPhrase`). Its tokens are those that it
derives, and its value says whether it holds where some tags are turned on. A repetition is the
phrase in front of the last operator and the operand behind it.

The reader of constraints takes its tokens from the front and passes on what is left, so two
statements carry the proof. What it answers is a derivation of the tokens that it takes
(`readOr_sound`), and a derivation is read whatever stands behind it, up to the tokens that could
extend it (`readOr_tokens`).

Main statement: the reader takes all tokens exactly if they derive from the grammar, and then the
constraint that it gives has the value of the derivation.
-/

set_option autoImplicit false

namespace CallAtlas.Build

mutual

/-- A derivation of alternatives. -/
inductive OrPhrase where
  | one (operand : AndPhrase)
  | more (before : OrPhrase) (last : AndPhrase)

/-- A derivation of conjuncts. -/
inductive AndPhrase where
  | one (operand : UnaryPhrase)
  | more (before : AndPhrase) (last : UnaryPhrase)

/-- A derivation of a negation, a group or a tag. -/
inductive UnaryPhrase where
  | not (operand : UnaryPhrase)
  | group (inner : OrPhrase)
  | tag (name : String)

end

mutual

def OrPhrase.tokens : OrPhrase → List ConstraintToken
  | .one a => a.tokens
  | .more before last => before.tokens ++ .or :: last.tokens

def AndPhrase.tokens : AndPhrase → List ConstraintToken
  | .one u => u.tokens
  | .more before last => before.tokens ++ .and :: last.tokens

def UnaryPhrase.tokens : UnaryPhrase → List ConstraintToken
  | .not u => .not :: u.tokens
  | .group inner => .opening :: (inner.tokens ++ [.closing])
  | .tag name => [.tag name]

end

mutual

def OrPhrase.value (enabled : String → Bool) : OrPhrase → Bool
  | .one a => a.value enabled
  | .more before last => before.value enabled || last.value enabled

def AndPhrase.value (enabled : String → Bool) : AndPhrase → Bool
  | .one u => u.value enabled
  | .more before last => before.value enabled && last.value enabled

def UnaryPhrase.value (enabled : String → Bool) : UnaryPhrase → Bool
  | .not u => !u.value enabled
  | .group inner => inner.value enabled
  | .tag name => enabled name

end

mutual

/-- The constraint that a derivation stands for. -/
def OrPhrase.constraint : OrPhrase → Constraint
  | .one a => a.constraint
  | .more before last => .or before.constraint last.constraint

def AndPhrase.constraint : AndPhrase → Constraint
  | .one u => u.constraint
  | .more before last => .and before.constraint last.constraint

def UnaryPhrase.constraint : UnaryPhrase → Constraint
  | .not u => .not u.constraint
  | .group inner => inner.constraint
  | .tag name => .tag name

end

mutual

theorem OrPhrase.holds_constraint (p : Platform) (o : OrPhrase) :
    o.constraint.holds p = o.value p.enables := by
  cases o with
  | one a => exact a.holds_constraint p
  | more before last =>
    simp only [OrPhrase.constraint, Constraint.holds, OrPhrase.value, before.holds_constraint p,
      last.holds_constraint p]

theorem AndPhrase.holds_constraint (p : Platform) (a : AndPhrase) :
    a.constraint.holds p = a.value p.enables := by
  cases a with
  | one u => exact u.holds_constraint p
  | more before last =>
    simp only [AndPhrase.constraint, Constraint.holds, AndPhrase.value, before.holds_constraint p,
      last.holds_constraint p]

theorem UnaryPhrase.holds_constraint (p : Platform) (u : UnaryPhrase) :
    u.constraint.holds p = u.value p.enables := by
  cases u with
  | not u =>
    simp only [UnaryPhrase.constraint, Constraint.holds, UnaryPhrase.value, u.holds_constraint p]
  | group inner => exact inner.holds_constraint p
  | tag name => rfl

end

namespace Constraint

/-! ## The equations of the reader

The bound in the type of a reading is there to show that reading ends. Without it each function of
the reader is one equation. -/

/-- A reading without its bound. -/
def outcome {bound : Nat} (r : Option (ConstraintReading bound)) :
    Option (Constraint × List ConstraintToken) :=
  r.map fun r => (r.constraint, r.rest)

theorem outcome_eq_some {bound : Nat} {r : Option (ConstraintReading bound)} {c : Constraint}
    {rest : List ConstraintToken} :
    outcome r = some (c, rest) ↔ ∃ reading, r = some reading ∧ reading.constraint = c ∧
      reading.rest = rest := by
  simp [outcome]

theorem outcome_readOr (ts : List ConstraintToken) :
    outcome (readOr ts) = (outcome (readAnd ts)).bind fun r => outcome (moreOr r.1 r.2) := by
  rw [readOr]
  cases readAnd ts with
  | none => rfl
  | some first =>
    show outcome ((moreOr first.constraint first.rest).bind _) =
      outcome (moreOr first.constraint first.rest)
    cases moreOr first.constraint first.rest <;> rfl

theorem outcome_readAnd (ts : List ConstraintToken) :
    outcome (readAnd ts) = (outcome (readUnary ts)).bind fun r => outcome (moreAnd r.1 r.2) := by
  rw [readAnd]
  cases readUnary ts with
  | none => rfl
  | some first =>
    show outcome ((moreAnd first.constraint first.rest).bind _) =
      outcome (moreAnd first.constraint first.rest)
    cases moreAnd first.constraint first.rest <;> rfl

theorem outcome_moreOr_or (left : Constraint) (ts : List ConstraintToken) :
    outcome (moreOr left (.or :: ts)) =
      (outcome (readAnd ts)).bind fun r => outcome (moreOr (.or left r.1) r.2) := by
  rw [moreOr]
  cases readAnd ts with
  | none => rfl
  | some right =>
    show outcome ((moreOr (.or left right.constraint) right.rest).bind _) =
      outcome (moreOr (.or left right.constraint) right.rest)
    cases moreOr (.or left right.constraint) right.rest <;> rfl

theorem outcome_moreAnd_and (left : Constraint) (ts : List ConstraintToken) :
    outcome (moreAnd left (.and :: ts)) =
      (outcome (readUnary ts)).bind fun r => outcome (moreAnd (.and left r.1) r.2) := by
  rw [moreAnd]
  cases readUnary ts with
  | none => rfl
  | some right =>
    show outcome ((moreAnd (.and left right.constraint) right.rest).bind _) =
      outcome (moreAnd (.and left right.constraint) right.rest)
    cases moreAnd (.and left right.constraint) right.rest <;> rfl

theorem outcome_moreOr_of_ne (left : Constraint) {ts : List ConstraintToken}
    (h : ts.head? ≠ some .or) : outcome (moreOr left ts) = some (left, ts) := by
  rw [moreOr]
  · rfl
  · rintro more rfl
    exact h rfl

theorem outcome_moreAnd_of_ne (left : Constraint) {ts : List ConstraintToken}
    (h : ts.head? ≠ some .and) : outcome (moreAnd left ts) = some (left, ts) := by
  rw [moreAnd]
  · rfl
  · rintro more rfl
    exact h rfl

theorem outcome_readUnary_not (ts : List ConstraintToken) :
    outcome (readUnary (.not :: ts)) = (outcome (readUnary ts)).map fun r => (.not r.1, r.2) := by
  rw [readUnary]
  cases readUnary ts <;> rfl

theorem outcome_readUnary_tag (name : String) (ts : List ConstraintToken) :
    outcome (readUnary (.tag name :: ts)) = some (.tag name, ts) := by
  rw [readUnary]
  rfl

theorem outcome_readUnary_opening {ts : List ConstraintToken} {c : Constraint}
    {rest : List ConstraintToken} :
    outcome (readUnary (.opening :: ts)) = some (c, rest) ↔
      outcome (readOr ts) = some (c, .closing :: rest) := by
  rw [readUnary]
  cases hread : readOr ts with
  | none => simp [outcome]
  | some inner =>
    obtain ⟨constraint, left, hshort⟩ := inner
    simp only [Option.bind_eq_bind, Option.bind_some]
    split
    · simp [outcome]
    · rename_i hleft
      simp only [outcome, Option.map_none, Option.map_some, Option.some.injEq, Prod.mk.injEq]
      constructor
      · intro h
        cases h
      · rintro ⟨_, rfl⟩
        exact absurd rfl (hleft rest)

/-! ## What is read is a derivation -/

mutual

theorem readOr_sound (ts : List ConstraintToken) {c : Constraint} {rest : List ConstraintToken}
    (h : outcome (readOr ts) = some (c, rest)) :
    ∃ o : OrPhrase, o.constraint = c ∧ ts = o.tokens ++ rest := by
  rw [outcome_readOr] at h
  obtain ⟨⟨first, left⟩, hfirst, hmore⟩ := Option.bind_eq_some_iff.mp h
  obtain ⟨a, rfl, hts⟩ := readAnd_sound ts hfirst
  have hle : left.length ≤ ts.length := by simp [hts]
  obtain ⟨o, ho, htokens⟩ := moreOr_sound left (.one a) hmore
  exact ⟨o, ho, hts.trans htokens⟩
termination_by 3 * ts.length + 2

theorem moreOr_sound (ts : List ConstraintToken) (before : OrPhrase) {c : Constraint}
    {rest : List ConstraintToken} (h : outcome (moreOr before.constraint ts) = some (c, rest)) :
    ∃ o : OrPhrase, o.constraint = c ∧ before.tokens ++ ts = o.tokens ++ rest := by
  by_cases hor : ts.head? = some .or
  · obtain ⟨more, rfl⟩ : ∃ more, ts = .or :: more := List.head?_eq_some_iff.mp hor
    rw [outcome_moreOr_or] at h
    obtain ⟨⟨right, left⟩, hright, hmore⟩ := Option.bind_eq_some_iff.mp h
    obtain ⟨a, rfl, hts⟩ := readAnd_sound more hright
    have hle : left.length ≤ more.length := by simp [hts]
    obtain ⟨o, ho, htokens⟩ := moreOr_sound left (.more before a) hmore
    refine ⟨o, ho, ?_⟩
    rw [← htokens, hts]
    simp [OrPhrase.tokens]
  · rw [outcome_moreOr_of_ne _ hor] at h
    cases h
    exact ⟨before, rfl, rfl⟩
termination_by 3 * ts.length

theorem readAnd_sound (ts : List ConstraintToken) {c : Constraint} {rest : List ConstraintToken}
    (h : outcome (readAnd ts) = some (c, rest)) :
    ∃ a : AndPhrase, a.constraint = c ∧ ts = a.tokens ++ rest := by
  rw [outcome_readAnd] at h
  obtain ⟨⟨first, left⟩, hfirst, hmore⟩ := Option.bind_eq_some_iff.mp h
  obtain ⟨u, rfl, hts⟩ := readUnary_sound ts hfirst
  have hle : left.length ≤ ts.length := by simp [hts]
  obtain ⟨a, ha, htokens⟩ := moreAnd_sound left (.one u) hmore
  exact ⟨a, ha, hts.trans htokens⟩
termination_by 3 * ts.length + 1

theorem moreAnd_sound (ts : List ConstraintToken) (before : AndPhrase) {c : Constraint}
    {rest : List ConstraintToken} (h : outcome (moreAnd before.constraint ts) = some (c, rest)) :
    ∃ a : AndPhrase, a.constraint = c ∧ before.tokens ++ ts = a.tokens ++ rest := by
  by_cases hand : ts.head? = some .and
  · obtain ⟨more, rfl⟩ : ∃ more, ts = .and :: more := List.head?_eq_some_iff.mp hand
    rw [outcome_moreAnd_and] at h
    obtain ⟨⟨right, left⟩, hright, hmore⟩ := Option.bind_eq_some_iff.mp h
    obtain ⟨u, rfl, hts⟩ := readUnary_sound more hright
    have hle : left.length ≤ more.length := by simp [hts]
    obtain ⟨a, ha, htokens⟩ := moreAnd_sound left (.more before u) hmore
    refine ⟨a, ha, ?_⟩
    rw [← htokens, hts]
    simp [AndPhrase.tokens]
  · rw [outcome_moreAnd_of_ne _ hand] at h
    cases h
    exact ⟨before, rfl, rfl⟩
termination_by 3 * ts.length

theorem readUnary_sound (ts : List ConstraintToken) {c : Constraint} {rest : List ConstraintToken}
    (h : outcome (readUnary ts) = some (c, rest)) :
    ∃ u : UnaryPhrase, u.constraint = c ∧ ts = u.tokens ++ rest := by
  match ts, h with
  | .not :: ts, h =>
    rw [outcome_readUnary_not] at h
    obtain ⟨⟨inner, left⟩, hinner, heq⟩ := Option.map_eq_some_iff.mp h
    cases heq
    obtain ⟨u, rfl, hts⟩ := readUnary_sound ts hinner
    exact ⟨.not u, rfl, by rw [hts]; rfl⟩
  | .opening :: ts, h =>
    obtain ⟨o, rfl, hts⟩ := readOr_sound ts (outcome_readUnary_opening.mp h)
    exact ⟨.group o, rfl, by simp [hts, UnaryPhrase.tokens]⟩
  | .tag name :: ts, h =>
    rw [outcome_readUnary_tag] at h
    cases h
    exact ⟨.tag name, rfl, rfl⟩
  -- nothing else starts an operand
  | [], h => simp [readUnary, outcome] at h
  | .and :: ts, h => simp [readUnary, outcome] at h
  | .or :: ts, h => simp [readUnary, outcome] at h
  | .closing :: ts, h => simp [readUnary, outcome] at h
termination_by 3 * ts.length

end

/-! ## A derivation is read -/

mutual

/-- Reading goes on behind the derivation, unless it ends with an operand that could go on
itself. -/
theorem readOr_tokens (o : OrPhrase) {rest : List ConstraintToken} (h : rest.head? ≠ some .and) :
    outcome (readOr (o.tokens ++ rest)) = outcome (moreOr o.constraint rest) := by
  cases o with
  | one a =>
    rw [outcome_readOr, OrPhrase.tokens, readAnd_tokens a, outcome_moreAnd_of_ne _ h]
    rfl
  | more before last =>
    have hor : (ConstraintToken.or :: (last.tokens ++ rest)).head? ≠ some .and := by simp
    rw [OrPhrase.tokens, List.append_assoc, List.cons_append, readOr_tokens before hor,
      outcome_moreOr_or, readAnd_tokens last, outcome_moreAnd_of_ne _ h]
    rfl

theorem readAnd_tokens (a : AndPhrase) (rest : List ConstraintToken) :
    outcome (readAnd (a.tokens ++ rest)) = outcome (moreAnd a.constraint rest) := by
  cases a with
  | one u =>
    rw [outcome_readAnd, AndPhrase.tokens, readUnary_tokens u]
    rfl
  | more before last =>
    rw [AndPhrase.tokens, List.append_assoc, List.cons_append, readAnd_tokens before,
      outcome_moreAnd_and, readUnary_tokens last]
    rfl

theorem readUnary_tokens (u : UnaryPhrase) (rest : List ConstraintToken) :
    outcome (readUnary (u.tokens ++ rest)) = some (u.constraint, rest) := by
  cases u with
  | not u =>
    rw [UnaryPhrase.tokens, List.cons_append, outcome_readUnary_not, readUnary_tokens u]
    rfl
  | group inner =>
    have hclosing : (ConstraintToken.closing :: rest).head? ≠ some .and := by simp
    rw [UnaryPhrase.tokens, List.cons_append, outcome_readUnary_opening, List.append_assoc,
      List.singleton_append, readOr_tokens inner hclosing]
    exact outcome_moreOr_of_ne _ (by simp)
  | tag name => exact outcome_readUnary_tag name rest

end

theorem outcome_readOr_eq_some_iff {ts : List ConstraintToken} {c : Constraint} :
    outcome (readOr ts) = some (c, []) ↔ ∃ o : OrPhrase, o.tokens = ts ∧ o.constraint = c := by
  constructor
  · intro h
    obtain ⟨o, ho, hts⟩ := readOr_sound ts h
    exact ⟨o, by rw [hts, List.append_nil], ho⟩
  · rintro ⟨o, rfl, rfl⟩
    have hnil : ([] : List ConstraintToken).head? ≠ some .and := by simp
    have hread := readOr_tokens o hnil
    rw [List.append_nil] at hread
    rw [hread, outcome_moreOr_of_ne _ (by simp)]

theorem ofTokens?_eq_some_iff {ts : List ConstraintToken} {c : Constraint} :
    ofTokens? ts = some c ↔ ∃ o : OrPhrase, o.tokens = ts ∧ o.constraint = c := by
  rw [← outcome_readOr_eq_some_iff, ofTokens?]
  cases readOr ts with
  | none => simp [outcome]
  | some reading =>
    obtain ⟨constraint, rest, hshort⟩ := reading
    cases rest <;> simp [outcome]

end Constraint

namespace Platform

variable (p : Platform)

theorem allowsExpression_of_tokens {text : String} {o : OrPhrase}
    (h : constraintTokens text = o.tokens) : p.allowsExpression text = o.value p.enables := by
  have hread : Constraint.ofTokens? (constraintTokens text) = some o.constraint :=
    Constraint.ofTokens?_eq_some_iff.mpr ⟨o, h.symm, rfl⟩
  rw [allowsExpression, hread]
  exact o.holds_constraint p

theorem allowsExpression_iff {text : String} :
    p.allowsExpression text = true ↔
      ∃ o : OrPhrase, o.tokens = constraintTokens text ∧ o.value p.enables = true := by
  constructor
  · intro h
    cases hread : Constraint.ofTokens? (constraintTokens text) with
    | none => simp [allowsExpression, hread] at h
    | some c =>
      obtain ⟨o, htokens, rfl⟩ := Constraint.ofTokens?_eq_some_iff.mp hread
      exact ⟨o, htokens, by rwa [p.allowsExpression_of_tokens htokens.symm] at h⟩
  · rintro ⟨o, htokens, hvalue⟩
    rw [p.allowsExpression_of_tokens htokens.symm, hvalue]

/-- **Main statement**: reading ends on all tokens. It takes all of them exactly if they derive from
the grammar, and the constraint that it gives has the value of the derivation. A text whose tokens
do not derive allows nothing. -/
theorem reading_iff_derivation (ts : List ConstraintToken) (v : Bool) :
    ((∃ reading, Constraint.readOr ts = some reading ∧ reading.rest = [] ∧
        reading.constraint.holds p = v) ↔
      ∃ o : OrPhrase, o.tokens = ts ∧ o.value p.enables = v) ∧
    ∀ text, p.allowsExpression text = true ↔
      ∃ o : OrPhrase, o.tokens = constraintTokens text ∧ o.value p.enables = true := by
  refine ⟨⟨?_, ?_⟩, fun text => p.allowsExpression_iff⟩
  · rintro ⟨reading, hread, hrest, hvalue⟩
    have houtcome : Constraint.outcome (Constraint.readOr ts) = some (reading.constraint, []) :=
      Constraint.outcome_eq_some.mpr ⟨reading, hread, rfl, hrest⟩
    obtain ⟨o, htokens, hconstraint⟩ := Constraint.outcome_readOr_eq_some_iff.mp houtcome
    exact ⟨o, htokens, by rw [← o.holds_constraint p, hconstraint, hvalue]⟩
  · rintro ⟨o, htokens, hvalue⟩
    have houtcome := Constraint.outcome_readOr_eq_some_iff.mpr ⟨o, htokens, rfl⟩
    obtain ⟨reading, hread, hconstraint, hrest⟩ := Constraint.outcome_eq_some.mp houtcome
    exact ⟨reading, hread, hrest, by rw [hconstraint, o.holds_constraint p, hvalue]⟩

end Platform

end CallAtlas.Build
