import CallAtlas.Source.ExprRules

/-!
# The rules for statements and declarations

A statement ends with its line unless a bracket is open. Statements in a list need a terminator
between them, and the declarations of a group need one behind each. A `for`, `if` or `switch` header
may run over several lines, but its names are never the types of composite literals.
-/

set_option autoImplicit false

namespace CallAtlas.Source

/-- The signs of an assignment. -/
def assignmentSigns : List String :=
  ["=", "+=", "-=", "*=", "/=", "%=", "&=", "|=", "^=", "<<=", ">>=", "&^="]

/-- The words that start a statement or declaration and cannot start a label or an
expression there. -/
def statementWords : List String :=
  ["var", "const", "type", "return", "go", "defer", "if", "for", "switch", "select", "fallthrough",
   "break", "continue", "goto"]

/-- The statement that does nothing. -/
def Stmt.empty : Stmt := .compound []

namespace Grammar

variable (g : Grammar)

/-- A declaration of variables. -/
def varSpec : Parser Stmt := do
  let line := (← peek).pos.line
  let names ← commaSep1 anyName
  if ← optionalSign "=" then pure (.var line names none (← g.exprList .statement))
  else
    let ty ← g.type true
    if ← atSignOn true "=" then
      sign "="
      pure (.var line names (some ty) (← g.exprList .statement))
    else pure (.var line names (some ty) [])

/-- A name with its line. -/
def lineName : Parser (String × Nat) := do
  let line := (← peek).pos.line
  pure (← anyName, line)

/-- A declaration of constants; without a value it ends behind the names. -/
def constSpec : Parser Stmt := do
  let names ← commaSep1 lineName
  let valued ← optionalOf (do
    if ← onLine true then
      let ty ← if ← atSign "=" then pure none else do pure (some (← g.type false))
      sign "="
      pure (ty, ← g.exprList .statement)
    else failure)
  match valued with
  | some (ty, values) => pure (.const names ty values)
  | none => pure (.const names none [])

/-- A declaration of a type. What can be read as an array is no list of type parameters. -/
def typeSpec : Parser TypeSpec := do
  let line := (← peek).pos.line
  let name ← anyName
  if ← optionalSign "=" then pure (.mk line name [] (← g.type true) true)
  else
    (do pure (.mk line name [] (← g.type true) false)) <|>
    (do
      let params ← g.typeParams
      pure (.mk line name params (← g.type true) false))

/-- One declaration, or a group in parentheses with a terminator behind each. -/
def oneOrGroup {α : Type} (p : Parser α) : Parser (List α) := do
  if ← optionalSign "(" then
    let items ← many (do
      let item ← p
      terminator
      pure item)
    sign ")"
    pure items
  else pure [← p]

/-- The declarations that may also stand among statements. -/
def declaration : Parser (List Stmt) :=
  (do keyword "var"; oneOrGroup g.varSpec) <|>
  (do keyword "const"; oneOrGroup g.constSpec) <|>
  (do keyword "type"; pure [.types (← oneOrGroup g.typeSpec)])

/-- A statement that may stand in a header. -/
def simple (mode : Mode) : Parser Stmt := do
  let first ← g.expr mode
  let more ← many (do
    if ← onLine mode.lines then
      sign ","
      g.expr mode
    else failure)
  let t ← peek
  if (mode.lines && t.fresh) || t.kind != .sign then
    if more.isEmpty then pure (.expr first) else failure
  else if t.text == ":=" then
    let _ ← advance
    pure (.define (first :: more) (← g.exprList mode))
  else if assignmentSigns.contains t.text then
    let _ ← advance
    pure (.assign (first :: more) (← g.exprList mode))
  else if !more.isEmpty then failure
  else if t.text == "++" || t.text == "--" then
    let _ ← advance
    pure (.step first)
  else if t.text == "<-" then
    let _ ← advance
    pure (.send first (← g.expr mode))
  else pure (.expr first)

/-- A statement and a semicolon in front of the rest of a header. -/
def initializer : Parser (List Stmt) := do
  let s ← g.simple .header
  sign ";"
  pure [s]

/-- A branch whose `if` has been read, with its other branches. -/
def branchFrom : (fuel : Nat) → Parser Stmt
  | 0 => failure
  | fuel + 1 => do
    keyword "if"
    let init := (← optionalOf g.initializer).getD []
    let test ← g.expr .header
    let body ← g.block
    let otherwise ←
      if (← atWord "else") && (← onLine true) then
        keyword "else"
        if ← atWord "if" then do pure [← branchFrom fuel] else do pure [.compound (← g.block)]
      else pure []
    pure (.compound (init ++ .test test :: .compound body :: otherwise))

/-- A branch. -/
def branch : Parser Stmt := do g.branchFrom (← get).length

/-- The header of a loop over a collection. -/
def rangeClause : Parser Stmt := do
  if ← atWord "range" then
    keyword "range"
    pure (.range [] false (← g.expr .header))
  else
    let names ← g.exprList .header
    let define ← optionalSign ":="
    if !define then sign "="
    keyword "range"
    pure (.range names define (← g.expr .header))

/-- The header of a loop in three parts, each of which may be missing. -/
def threeClauses : Parser (List Stmt) := do
  let init ← if ← atSign ";" then pure [] else do pure [← g.simple .header]
  sign ";"
  let test ← if ← atSign ";" then pure [] else do pure [Stmt.test (← g.expr .header)]
  sign ";"
  let update ← if ← atSign "\x7b" then pure [] else do pure [← g.simple .header]
  pure (init ++ test ++ update)

/-- A loop. -/
def loop : Parser Stmt := do
  keyword "for"
  let header ←
    if ← atSign "\x7b" then pure []
    else
      (do pure [← g.rangeClause]) <|> g.threeClauses <|> (do pure [.test (← g.expr .header)])
  pure (.compound (header ++ [.compound (← g.block)]))

/-- The default case of a switch or select. -/
def defaultBody : Parser (List Stmt) := do
  keyword "default"
  sign ":"
  g.stmts true

/-- A case of a switch by values. -/
def switchCase : Parser Stmt :=
  (do
    keyword "case"
    let values ← g.exprList .inner
    sign ":"
    let body ← g.stmts true
    pure (.compound (values.map Stmt.test ++ body))) <|>
  (do pure (.compound (← g.defaultBody)))

/-- A switch by values. -/
def valueSwitch : Parser Stmt := do
  keyword "switch"
  let init := (← optionalOf g.initializer).getD []
  let value ← if ← atSign "\x7b" then pure [] else do pure [Stmt.test (← g.expr .header)]
  sign "\x7b"
  let cases ← many g.switchCase
  sign "\x7d"
  pure (.compound (init ++ value ++ cases))

/-- A case of a switch by types. -/
def typeCase : Parser TypeCase :=
  (do
    keyword "case"
    let types ← commaSep1 (g.type false)
    sign ":"
    pure (.mk types (← g.stmts true))) <|>
  (do pure (.mk [] (← g.defaultBody)))

/-- A switch by types. -/
def typeSwitch : Parser Stmt := do
  keyword "switch"
  let init := (← optionalOf g.initializer).getD []
  let binding ← optionalOf (do
    let names ← g.exprList .header
    sign ":="
    pure names)
  let value ← g.expr { Mode.header with typeSwitch := true }
  sign "."
  sign "("
  keyword "type"
  sign ")"
  sign "\x7b"
  let cases ← many g.typeCase
  sign "\x7d"
  pure (.typeSwitch init (binding.getD []) value cases)

/-- The send or receive of a case of a select statement. -/
def communication : Parser Stmt := do
  let first ← g.exprList .inner
  match first with
  | [e] =>
    if ← optionalSign "<-" then pure (.send e (← g.expr .inner))
    else if ← optionalSign ":=" then pure (.receive [e] true (← g.expr .inner))
    else if ← optionalSign "=" then pure (.receive [e] false (← g.expr .inner))
    else pure (.receive [] false e)
  | targets =>
    if ← optionalSign ":=" then pure (.receive targets true (← g.expr .inner))
    else
      sign "="
      pure (.receive targets false (← g.expr .inner))

/-- A case of a select statement. -/
def commCase : Parser Stmt :=
  (do
    keyword "case"
    let comm ← g.communication
    sign ":"
    pure (.compound (comm :: (← g.stmts true)))) <|>
  (do pure (.compound (← g.defaultBody)))

/-- A select statement. -/
def select : Parser Stmt := do
  keyword "select"
  sign "\x7b"
  let cases ← many g.commCase
  sign "\x7d"
  pure (.compound cases)

/-- A jump, perhaps to a label. -/
def jump : Parser Stmt :=
  (do keyword "fallthrough"; pure .empty) <|>
  (do keyword "goto"; let _ ← anyName; pure .empty) <|>
  (do
    keyword "break" <|> keyword "continue"
    let t ← peek
    if t.kind == .word && !t.fresh then let _ ← advance
    pure .empty)

/-- The words that start no expression and no label at the start of a statement. -/
def reservedAt (inCase : Bool) : List String :=
  if inCase then "case" :: "default" :: statementWords else statementWords

/-- A label with its colon. -/
def label (inCase : Bool) : Parser Unit := do
  let _ ← nameExcept (reservedAt inCase ++ typeWords)
  if ← onLine true then sign ":" else failure

/-- The rule for a statement. -/
def stmtRule (inCase : Bool) : Parser (List Stmt) := do
  let t ← peek
  match t.kind, t.text with
  | .sign, ";" => sign ";"; pure [.empty]
  | .sign, "\x7b" => pure [.compound (← g.block)]
  | .word, "var" | .word, "const" | .word, "type" => g.declaration
  | .word, "return" =>
    keyword "return"
    let values ← optionalOf (do
      if ← onLine true then g.exprList .statement else failure)
    pure [.ret (values.getD [])]
  | .word, "go" => keyword "go"; pure [.expr (← g.expr .statement)]
  | .word, "defer" => keyword "defer"; pure [.expr (← g.expr .statement)]
  | .word, "if" => pure [← g.branch]
  | .word, "for" => pure [← g.loop]
  | .word, "switch" => (do pure [← g.typeSwitch]) <|> (do pure [← g.valueSwitch])
  | .word, "select" => pure [← g.select]
  | .word, "fallthrough" | .word, "break" | .word, "continue" | .word, "goto" => pure [← jump]
  | _, w =>
    if t.kind == .word && inCase && (w == "case" || w == "default") then failure
    else
      match ← optionalOf (label inCase) with
      | some _ => pure [.compound (← g.stmt inCase)]
      | none => pure [← g.simple .statement]

/-- A label that ends a list of statements. -/
def lastLabel (inCase : Bool) : Parser (List Stmt) := do
  label inCase
  pure []

/-- The rule for a list of statements. A label may end it. -/
def stmtsRule (inCase : Bool) : Parser (List Stmt) := do
  let first ← optionalOf (g.stmt inCase)
  match first with
  | none => do pure ((← optionalOf (lastLabel inCase)).getD [])
  | some first =>
    let rest ← many (do terminator; g.stmt inCase)
    let _ ← optionalOf (do
      terminator
      let _ ← optionalOf (lastLabel inCase))
    pure (first ++ rest.flatten)

/-- The rules of one level, over those of the level below. -/
def step : Grammar where
  type lines := g.typeRule lines
  term lines := g.termRule lines
  expr mode := g.exprRule mode
  operand mode := g.operandRule mode
  elements := g.elementsRule
  stmts inCase := g.stmtsRule inCase
  stmt inCase := g.stmtRule inCase

/-- The grammar of texts that are nested at most `n` deep. -/
def upTo : (n : Nat) → Grammar
  | 0 => bottom
  | n + 1 => (upTo n).step

end Grammar

end CallAtlas.Source
