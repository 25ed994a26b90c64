import CallAtlas.Source.TypeRules

/-!
# The rules for expressions

Some texts have two readings, and the rules below choose as follows.

* `e[X, Y](args)` is a call with type arguments whenever all of `X, Y` can be read as types; else
  `e[X]` is an index.
* A head that can only be a type makes a composite literal or, with exactly one argument, a
  conversion.
* A type in parentheses that holds type arguments, with exactly one argument, is a conversion; any
  other head in parentheses is an expression if it can be read as one.
-/

set_option autoImplicit false

namespace CallAtlas.Source

/-- The words that are no names at the start of an expression, besides those that start a type. -/
def valueWords : List (String × Literal) :=
  [("nil", .nothing), ("true", .truth), ("false", .truth), ("iota", .iota)]

/-- How tight a binary sign binds, from 5 for products to 1 for `||`; other signs have no level. -/
def bindingLevel (s : String) : Nat :=
  if ["*", "/", "%", "<<", ">>", "&", "&^"].contains s then 5
  else if ["+", "-", "|", "^"].contains s then 4
  else if ["==", "!=", "<", "<=", ">", ">="].contains s then 3
  else if s == "&&" then 2
  else if s == "||" then 1
  else 0

/-- Joins the operands of the signs of one level from the left. -/
def joinLevel (level : Nat) (first : Expr) : List (String × Expr) → Expr × List (String × Expr)
  | [] => (first, [])
  | (s, e) :: rest =>
    if bindingLevel s == level then joinLevel level (.binary first e) rest
    else
      let (e', rest') := joinLevel level e rest
      (first, (s, e') :: rest')

/-- Joins a chain of operands, the tightest signs first. -/
def joinChain (first : Expr) (rest : List (String × Expr)) : Expr :=
  ([5, 4, 3, 2, 1].foldl (fun (e, r) level => joinLevel level e r) (first, rest)).1

/-- The type that an expression names, if it is a plain or qualified name. -/
def Expr.asTypeName : Expr → Option TypeExpr
  | .ident n => some (.name n)
  | .selector (.ident p) n => some (.qualified p n)
  | _ => none

/-- A type that could be an expression holds type arguments. -/
def TypeExpr.hasTypeArgs : TypeExpr → Bool
  | .generic _ _ => true
  | .pointer t | .paren t | .negated t => t.hasTypeArgs
  | .union a b => a.hasTypeArgs || b.hasTypeArgs
  | _ => false

/-- The signs that may stand in front of an operand; a longer sign there is read as its first
character and the rest. -/
def unarySigns : List (String × UnaryOp × Option String) :=
  [("+", .arithmetic, none), ("-", .arithmetic, none), ("!", .arithmetic, none),
   ("^", .arithmetic, none), ("*", .deref, none), ("&", .address, none), ("<-", .receive, none),
   ("&&", .address, some "&"), ("--", .arithmetic, some "-"), ("++", .arithmetic, some "+"),
   ("&^", .address, some "^")]

/-- Takes a sign in front of an operand. What is left of a longer sign stays as the next token. -/
def unarySign : Parser UnaryOp := fun ts =>
  match ts with
  | t :: rest =>
    if t.kind == .sign then
      match unarySigns.lookup t.text with
      | some (op, none) => some (op, rest)
      | some (op, some left) =>
        some (op, { t with text := left, before := "", fresh := false } :: rest)
      | none => none
    else none
  | [] => none

namespace Grammar

variable (g : Grammar)

/-- An argument of a call, perhaps spread. -/
def argument : Parser Expr := do
  let e ← g.expr .inner
  if ← optionalSign "..." then pure (.spread e) else pure e

/-- The arguments of a call in parentheses. -/
def arguments : Parser (List Expr) := do
  sign "("
  if ← optionalSign ")" then pure []
  else
    let args ← commaSep1 g.argument
    let _ ← optionalSign ","
    sign ")"
    pure args

/-- The arguments of a predeclared function that takes a type first. -/
def typeFirstArguments : Parser (List Expr) := do
  sign "("
  let ty ← g.type false
  let rest ← many (do sign ","; g.expr .inner)
  let _ ← optionalSign ","
  sign ")"
  pure (.type ty :: rest)

/-- The operand of a conversion in parentheses. -/
def converted : Parser Expr := do
  sign "("
  let e ← g.expr .inner
  let _ ← optionalSign ","
  sign ")"
  pure e

/-- The value of an element or its key: an expression or a nested list. -/
def elementValue : Parser Expr := do
  if ← atSign "\x7b" then pure (.elements (← g.elements)) else g.expr .inner

/-- An element of a composite literal. -/
def element : Parser Expr := do
  let first ← g.elementValue
  if ← optionalSign ":" then pure (.keyed first (← g.elementValue)) else pure first

/-- The rule for the elements of a composite literal in their braces. -/
def elementsRule : Parser (List Expr) := do
  sign "\x7b"
  let elems ← commaList g.element
  sign "\x7d"
  pure elems

/-- The statements of a block in braces. -/
def block : Parser (List Stmt) := do
  sign "\x7b"
  let body ← g.stmts false
  sign "\x7d"
  pure body

/-- A composite literal or conversion whose head can only be a type. -/
def typeHead : Parser Expr := do
  let ty ← g.term false
  if ← atSign "\x7b" then
    match ty with
    | .map _ _ | .slice _ | .array _ _ | .struct _ => pure (.composite ty (← g.elements))
    | _ => failure
  else pure (.convert ty (← g.converted))

/-- An array literal whose length is counted. -/
def openArray : Parser Expr := do
  sign "["
  sign "..."
  sign "]"
  let elem ← g.type false
  pure (.composite (.slice elem) (← g.elements))

/-- A function literal, or a conversion to a function type. -/
def functionValue : Parser Expr := do
  let start ← peek
  keyword "func"
  let params ← g.params
  let results ← g.results false
  if ← atSign "\x7b" then pure (.funcLit start.pos params results (← g.block))
  else pure (.convert (.func params results) (← g.converted))

/-- A head in parentheses. -/
def parenthesized : Parser Expr :=
  (do
    let ty ← g.term false
    if ty.hasTypeArgs then pure (.convert ty (← g.converted)) else failure) <|>
  (do
    sign "("
    let e ← g.expr .inner
    sign ")"
    pure (.paren e)) <|>
  (do
    let ty ← g.term false
    pure (.convert ty (← g.converted)))

/-- The first part of an operand, before selectors, calls and indexes. -/
def head : Parser Expr := do
  let t ← peek
  match t.kind with
  | .int => let _ ← advance; pure (.literal .int)
  | .float => let _ ← advance; pure (.literal .float)
  | .imaginary => let _ ← advance; pure (.literal .imaginary)
  | .rune => let _ ← advance; pure (.literal .rune)
  | .text => let _ ← advance; pure (.literal .text)
  | .word =>
    if t.text == "func" then g.functionValue
    else if typeWords.contains t.text then g.typeHead
    else
      match valueWords.lookup t.text with
      | some kind => let _ ← advance; pure (.literal kind)
      | none =>
        let _ ← advance
        if (t.text == "new" || t.text == "make") && (← atSign "(") then
          pure (.call t.pos (.ident t.text) [] (← g.typeFirstArguments))
        else pure (.ident t.text)
  | .sign =>
    if t.text == "(" then g.parenthesized
    else if t.text == "[" then g.openArray <|> g.typeHead
    else failure
  | .finish => failure

/-- An index or a slice of `e`. -/
def subscript (e : Expr) : Parser Expr := do
  sign "["
  let low ← if ← atSign ":" then pure [] else do pure [← g.expr .inner]
  if ← optionalSign ":" then
    let high ← if (← atSign "]") || (← atSign ":") then pure [] else do pure [← g.expr .inner]
    let limit ←
      if !high.isEmpty && (← optionalSign ":") then do pure [← g.expr .inner] else pure []
    sign "]"
    pure (.slice e (low ++ high ++ limit))
  else
    sign "]"
    match low with
    | [index] => pure (.index e index)
    | _ => failure

/-- What may stand in brackets behind `e`: type arguments of a call or of a composite literal, an
index, or a slice. -/
def bracketed (mode : Mode) (start : Position) (e : Expr) : Parser Expr :=
  (do
    let types ← g.typeArgs
    pure (.call start e types (← g.arguments))) <|>
  (do
    match mode.braces, e.asTypeName with
    | true, some base =>
      let types ← g.typeArgs
      pure (.composite (.generic base types) (← g.elements))
    | _, _ => failure) <|>
  g.subscript e

/-- The next part of an operand: a selector, an assertion, a call, an index or, where braces are
allowed, the elements of a composite literal. -/
def part (mode : Mode) (start : Position) (e : Expr) : Parser Expr := do
  let t ← peek
  if (mode.lines && t.fresh) || t.kind != .sign then failure
  else if t.text == "." then
    sign "."
    if ← atSign "(" then
      sign "("
      if mode.typeSwitch && (← atWord "type") then failure
      let ty ← g.type false
      sign ")"
      pure (.assert e ty)
    else pure (.selector e (← anyName))
  else if t.text == "(" then pure (.call start e [] (← g.arguments))
  else if t.text == "[" then g.bracketed mode start e
  else if t.text == "\x7b" then
    match mode.braces, e.asTypeName with
    | true, some ty => pure (.composite ty (← g.elements))
    | _, _ => failure
  else failure

/-- Takes the parts behind the first part of an operand. -/
def parts (mode : Mode) (start : Position) : (fuel : Nat) → Expr → Parser Expr
  | 0, e => pure e
  | fuel + 1, e => do
    match ← optionalOf (g.part mode start e) with
    | some e' => parts mode start fuel e'
    | none => pure e

/-- A conversion to a pointer or channel whose target can only be a type. -/
def signedConversion : Parser Expr := do
  let stars ← get
  let behind := stars.dropWhile fun t => t.kind == .sign && t.text == "*"
  match behind with
  | t :: u :: _ =>
    let onlyType :=
      (t.kind == .sign && t.text == "[") || (t.kind == .word && typeWords.contains t.text) ||
      (t.kind == .sign && t.text == "<-" && u.kind == .word && u.text == "chan")
    if onlyType then
      let ty ← g.term false
      pure (.convert ty (← g.converted))
    else failure
  | _ => failure

/-- An operand without a sign in front of it. -/
def primary (mode : Mode) : Parser Expr := do
  let start ← peek
  let e ←
    if start.kind == .sign && (start.text == "*" || start.text == "<-") then g.signedConversion
    else g.head
  g.parts mode start.pos (← get).length e

/-- The rule for an expression without binary signs. -/
def operandRule (mode : Mode) : Parser Expr :=
  g.primary mode <|> (do
    let op ← unarySign
    pure (.unary op (← g.operand mode)))

/-- A binary sign and its right operand. -/
def signedOperand (mode : Mode) : Parser (String × Expr) := do
  let t ← peek
  if (mode.lines && t.fresh) || t.kind != .sign || bindingLevel t.text == 0 then failure
  else
    let _ ← advance
    pure (t.text, ← g.operand mode)

/-- The rule for an expression. -/
def exprRule (mode : Mode) : Parser Expr := do
  let first ← g.operand mode
  let rest ← many (g.signedOperand mode)
  pure (joinChain first rest)

/-- One or more expressions with commas between them. -/
def exprList (mode : Mode) : Parser (List Expr) := commaSep1 (g.expr mode)

end Grammar

end CallAtlas.Source
