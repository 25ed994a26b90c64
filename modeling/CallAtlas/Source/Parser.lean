import CallAtlas.Source.Tree

/-!
# Reading tokens

A parser takes tokens off the front of a list and fails without a message: a file is either read as
a whole or it has a syntax error. `p <|> q` tries `q` from where `p` started.

The rules of the language refer to each other in circles. `Grammar` holds the rules that others
refer to; each rule is written over a given grammar, and `Grammar.step` makes the rules of one level
from those of the level below, so that a text nested `n` deep needs `n` levels and nothing recurs
without a bound.
-/

set_option autoImplicit false

namespace CallAtlas.Source

/-- Takes tokens off the front of a list, or fails. -/
abbrev Parser := StateT (List Token) Option

/-- How the place of an expression limits what it may take. `lines`: it ends at a line end.
`braces`: a name may be the type of a composite literal, since no block can follow. `typeSwitch`: it
ends before `.(type)`. -/
structure Mode where
  lines : Bool
  braces : Bool
  typeSwitch : Bool
deriving DecidableEq, Repr, Inhabited

/-- The mode of a statement: it ends with its line. -/
def Mode.statement : Mode := { lines := true, braces := true, typeSwitch := false }

/-- The mode between brackets: nothing but the bracket ends it. -/
def Mode.inner : Mode := { lines := false, braces := true, typeSwitch := false }

/-- The mode in front of a block. -/
def Mode.header : Mode := { lines := false, braces := false, typeSwitch := false }

/-- The next token. -/
def peek : Parser Token := fun ts =>
  match ts with
  | t :: _ => some (t, ts)
  | [] => none

/-- Takes the next token. -/
def advance : Parser Token := fun ts =>
  match ts with
  | t :: rest => some (t, rest)
  | [] => none

/-- The next token is this sign. -/
def atSign (s : String) : Parser Bool := do
  let t ← peek
  pure (t.kind == .sign && t.text == s)

/-- The next token is this word. -/
def atWord (w : String) : Parser Bool := do
  let t ← peek
  pure (t.kind == .word && t.text == w)

/-- The next token is on the line of the one before it, or lines do not matter. -/
def onLine (lines : Bool) : Parser Bool := do
  let t ← peek
  pure (!(lines && t.fresh))

/-- The next token is this sign and still belongs to a construct that ends with its line. -/
def atSignOn (lines : Bool) (s : String) : Parser Bool := do
  pure ((← atSign s) && (← onLine lines))

/-- Takes this sign. -/
def sign (s : String) : Parser Unit := do
  if ← atSign s then let _ ← advance else failure

/-- Takes this word. -/
def keyword (w : String) : Parser Unit := do
  if ← atWord w then let _ ← advance else failure

/-- Takes any word. -/
def anyName : Parser String := do
  let t ← advance
  if t.kind == .word then pure t.text else failure

/-- Takes a word that is not reserved. -/
def nameExcept (reserved : List String) : Parser String := do
  let n ← anyName
  if reserved.contains n then failure else pure n

/-- Takes a string literal. -/
def textLiteral : Parser String := do
  let t ← advance
  if t.kind == .text then pure t.text else failure

/-- Takes this sign if it is next, and tells whether it was. -/
def optionalSign (s : String) : Parser Bool := do
  if ← atSign s then
    let _ ← advance
    pure true
  else pure false

/-- The result of a parser, or nothing and no token taken where it fails. -/
def optionalOf {α : Type} (p : Parser α) : Parser (Option α) :=
  (do pure (some (← p))) <|> pure none

/-- Takes as many as there are, at most `fuel`. -/
def manyUpTo {α : Type} (p : Parser α) : (fuel : Nat) → Parser (List α)
  | 0 => pure []
  | fuel + 1 => do
    match ← optionalOf p with
    | none => pure []
    | some a => pure (a :: (← manyUpTo p fuel))

/-- Takes as many as there are; each takes a token. -/
def many {α : Type} (p : Parser α) : Parser (List α) := do
  manyUpTo p (← get).length

/-- Takes one or more with a separator between them. -/
def sepBy1 {α : Type} (separator : Parser Unit) (p : Parser α) : Parser (List α) := do
  let first ← p
  let rest ← many (do separator; p)
  pure (first :: rest)

/-- Takes one or more with commas between them. -/
def commaSep1 {α : Type} (p : Parser α) : Parser (List α) := sepBy1 (sign ",") p

/-- Takes any number with commas between them and perhaps one behind them. -/
def commaList {α : Type} (p : Parser α) : Parser (List α) := do
  let items ← optionalOf (commaSep1 p)
  let _ ← optionalSign ","
  pure (items.getD [])

/-- Takes the end of a statement or declaration: a semicolon, or a line end. -/
def terminator : Parser Unit := do
  let t ← peek
  if t.kind == .sign && t.text == ";" then let _ ← advance
  else if t.fresh then pure () else failure

/-- Takes one or more with terminators between them and perhaps one behind them. -/
def lineList1 {α : Type} (p : Parser α) : Parser (List α) := do
  let items ← sepBy1 terminator p
  let _ ← optionalOf terminator
  pure items

/-- Runs a parser and also gives the tokens that it took. -/
def spanned {α : Type} (p : Parser α) : Parser (α × List Token) := do
  let before ← get
  let a ← p
  let after ← get
  pure (a, before.take (before.length - after.length))

/-- The rules that other rules refer to. -/
structure Grammar where
  /-- A type; the flag tells whether it ends with its line. -/
  type : Bool → Parser TypeExpr
  /-- A type that is not a union. -/
  term : Bool → Parser TypeExpr
  /-- An expression. -/
  expr : Mode → Parser Expr
  /-- An expression without binary signs. -/
  operand : Mode → Parser Expr
  /-- The elements of a composite literal in their braces. -/
  elements : Parser (List Expr)
  /-- Statements up to the end of their block, or in the body of a case up to the next one. -/
  stmts : (inCase : Bool) → Parser (List Stmt)
  /-- A statement; a group of declarations gives several. -/
  stmt : (inCase : Bool) → Parser (List Stmt)

/-- The grammar that reads nothing. -/
def Grammar.bottom : Grammar where
  type _ := failure
  term _ := failure
  expr _ := failure
  operand _ := failure
  elements := failure
  stmts _ := failure
  stmt _ := failure

end CallAtlas.Source
