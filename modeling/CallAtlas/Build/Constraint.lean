import CallAtlas.Build.Platform

/-!
# Build constraints

A constraint combines tags with `!`, `&&`, `||` and parentheses, where `!` binds tightest and `||`
loosest. The header of a file holds one such constraint behind `//go:build`, or in the older form
lines behind `// +build`; the newer form wins. A constraint that cannot be read allows nothing.
-/

set_option autoImplicit false

namespace CallAtlas.Build

/-- A token of a constraint. -/
inductive ConstraintToken where
  | tag (name : String)
  | not
  | and
  | or
  | opening
  | closing
deriving DecidableEq, Repr, Inhabited

/-- A constraint. -/
inductive Constraint where
  | tag (name : String)
  | not (inner : Constraint)
  | and (left right : Constraint)
  | or (left right : Constraint)
deriving DecidableEq, Repr, Inhabited

/-- A character of a tag. -/
def isTagChar (c : Char) : Bool := Text.isAlphanumeric c || c == '_' || c == '.'

/-- Cuts the text of a constraint into tokens. A character that starts no token counts as two
closing parentheses, and nothing is read behind it. -/
def constraintTokensOf : List Char → List ConstraintToken
  | [] => []
  | ' ' :: cs => constraintTokensOf cs
  | '\t' :: cs => constraintTokensOf cs
  | '!' :: cs => .not :: constraintTokensOf cs
  | '(' :: cs => .opening :: constraintTokensOf cs
  | ')' :: cs => .closing :: constraintTokensOf cs
  | '&' :: '&' :: cs => .and :: constraintTokensOf cs
  | '|' :: '|' :: cs => .or :: constraintTokensOf cs
  | c :: cs =>
    if isTagChar c then
      .tag (String.ofList (c :: cs.takeWhile isTagChar)) ::
        constraintTokensOf (cs.dropWhile isTagChar)
    else [.closing, .closing]
termination_by cs => cs.length
decreasing_by
  all_goals
    have := (List.dropWhile_suffix isTagChar (l := cs)).length_le
    simp only [List.length_cons]
    omega

/-- The tokens of the text of a constraint. -/
def constraintTokens (text : String) : List ConstraintToken := constraintTokensOf text.toList

/-- What a reader of constraints gives: a constraint, and the tokens behind it, of which there are
fewer than `bound`. -/
structure ConstraintReading (bound : Nat) where
  constraint : Constraint
  rest : List ConstraintToken
  short : rest.length < bound

/-- The same reading under a larger bound. -/
def ConstraintReading.widen {bound bound' : Nat} (r : ConstraintReading bound)
    (h : bound ≤ bound') : ConstraintReading bound' :=
  ⟨r.constraint, r.rest, Nat.lt_of_lt_of_le r.short h⟩

namespace Constraint

mutual

/-- Reads alternatives. -/
def readOr (ts : List ConstraintToken) : Option (ConstraintReading ts.length) := do
  let first ← readAnd ts
  have := first.short
  let all ← moreOr first.constraint first.rest
  pure (all.widen this)
termination_by 3 * ts.length + 2

/-- Reads further alternatives behind the first ones. -/
def moreOr (left : Constraint) :
    (ts : List ConstraintToken) → Option (ConstraintReading (ts.length + 1))
  | .or :: ts => do
    let right ← readAnd ts
    have := right.short
    let all ← moreOr (.or left right.constraint) right.rest
    pure (all.widen (Nat.le_add_right_of_le (Nat.le_succ_of_le this)))
  | ts => some ⟨left, ts, Nat.lt_succ_self _⟩
termination_by ts => 3 * ts.length

/-- Reads conjuncts. -/
def readAnd (ts : List ConstraintToken) : Option (ConstraintReading ts.length) := do
  let first ← readUnary ts
  have := first.short
  let all ← moreAnd first.constraint first.rest
  pure (all.widen this)
termination_by 3 * ts.length + 1

/-- Reads further conjuncts behind the first ones. -/
def moreAnd (left : Constraint) :
    (ts : List ConstraintToken) → Option (ConstraintReading (ts.length + 1))
  | .and :: ts => do
    let right ← readUnary ts
    have := right.short
    let all ← moreAnd (.and left right.constraint) right.rest
    pure (all.widen (Nat.le_add_right_of_le (Nat.le_succ_of_le this)))
  | ts => some ⟨left, ts, Nat.lt_succ_self _⟩
termination_by ts => 3 * ts.length

/-- Reads a tag, a negation or a constraint in parentheses. -/
def readUnary : (ts : List ConstraintToken) → Option (ConstraintReading ts.length)
  | .not :: ts => do
    let inner ← readUnary ts
    pure ⟨.not inner.constraint, inner.rest, Nat.lt_succ_of_lt inner.short⟩
  | .opening :: ts => do
    let inner ← readOr ts
    match h : inner.rest with
    | .closing :: rest =>
      pure ⟨inner.constraint, rest, by have := inner.short; simp [h] at this; simp; omega⟩
    | _ => none
  | .tag name :: ts => some ⟨.tag name, ts, Nat.lt_succ_self _⟩
  | _ => none
termination_by ts => 3 * ts.length

end

/-- The constraint that all the tokens make up. -/
def ofTokens? (ts : List ConstraintToken) : Option Constraint :=
  match readOr ts with
  | some ⟨c, [], _⟩ => some c
  | _ => none

/-- The constraint holds on a platform. -/
def holds (p : Platform) : Constraint → Bool
  | .tag name => p.enables name
  | .not c => !c.holds p
  | .and a b => a.holds p && b.holds p
  | .or a b => a.holds p || b.holds p

end Constraint

namespace Platform

variable (p : Platform)

/-- The text of a constraint allows the platform. -/
def allowsExpression (text : String) : Bool :=
  match Constraint.ofTokens? (constraintTokens text) with
  | some c => c.holds p
  | none => false

/-- A term of an older constraint: a tag, perhaps negated. -/
def allowsTerm (term : String) : Bool :=
  match Text.stripPrefix? "!" term with
  | some tag => !p.enables tag
  | none => p.enables term

/-- A line of an older constraint: options between blanks, each of terms between commas, of which
one option must hold. -/
def allowsLine (line : String) : Bool :=
  (Text.wordsOf line.toList).any fun option =>
    (Text.split ',' (String.ofList option)).all p.allowsTerm

/-- The lines of a file in front of its package clause, without blanks at their ends. -/
def headerLines (source : String) : List String :=
  ((Text.linesOf source.toList).map fun line => Text.trim (String.ofList line)).takeWhile
    fun line => !Text.startsWith "package " line

/-- The header of a file allows the platform. -/
def allowsHeader (source : String) : Bool :=
  let lines := headerLines source
  match lines.findSome? (Text.stripPrefix? "//go:build") with
  | some expression => p.allowsExpression expression
  | none => (lines.filterMap (Text.stripPrefix? "// +build")).all p.allowsLine

end Platform

end CallAtlas.Build
