import CallAtlas.Source.StmtRules

/-!
# A whole file

A file is a list of declarations and statements, each behind the other on a line of its own.
`File.parse?` is the reader of this library: it gives the declarations of a text, or nothing if the
text has a syntax error.
-/

set_option autoImplicit false

namespace CallAtlas.Source

/-- A string literal without its quotes. -/
def unquote (literal : String) : String :=
  String.ofList (Text.trimBy (fun c => c == '"' || c == '\x60') literal.toList)

/-- The text of the type that a method belongs to, from the entry of its receiver: behind a star,
and in front of type arguments. -/
def receiverText : SpannedEntry → String
  | (.mk _ ty _, span) =>
    let (ty, span) :=
      match ty with
      | .pointer inner => (inner, span.drop 1)
      | _ => (ty, span)
    match ty with
    | .generic (.qualified _ _) _ => sourceText (span.take 3)
    | .generic _ _ => sourceText (span.take 1)
    | _ => sourceText span

namespace Grammar

variable (g : Grammar)

/-- An import. -/
def importSpec : Parser ImportDecl := do
  let line := (← peek).pos.line
  let name ← optionalOf (anyName <|> (do sign "."; pure "."))
  let path ← textLiteral
  pure { line, name, path := unquote path }

/-- One import, or a group in parentheses. -/
def imports : Parser Decl := do
  keyword "import"
  if ← optionalSign "(" then
    let specs ← optionalOf (lineList1 importSpec)
    sign ")"
    pure (.imports (specs.getD []))
  else pure (.imports [← importSpec])

/-- What follows the name of a function: parameters, results, and on the same line
perhaps a body. -/
def funcTail (pos : Position) (name : String) (receiver : Option ReceiverDecl)
    (typeParams : List Entry) : Parser Decl := do
  let params ← g.params
  let results ← g.results true
  let body ← if ← atSignOn true "\x7b" then do pure (some (← g.block)) else pure none
  pure (.func { pos, name, receiver, typeParams, params, results, body })

/-- A function or a method. -/
def function : Parser Decl := do
  let start ← peek
  keyword "func"
  if ← atSign "(" then
    let spanned ← g.spannedParams
    let entries := spanned.map Prod.fst
    let first := spanned.find? fun | (.mk _ _ variadic, _) => !variadic
    let typeText := (first.map receiverText).getD ""
    let name ← anyName
    g.funcTail start.pos name (some { entries, typeText }) []
  else
    let name ← anyName
    let typeParams ← if ← atSign "[" then g.typeParams else pure []
    g.funcTail start.pos name none typeParams

/-- A declaration that may only stand at the top of a file. -/
def topDeclaration : Parser Decl :=
  (do keyword "package"; pure (.package (← anyName))) <|> imports <|> g.function

/-- What may stand at the top of a file, with the end of its line. A declaration at the end of the
file needs none. -/
def topItem : Parser (List Decl) :=
  (do
    let decl ← g.topDeclaration
    if (← peek).kind == .finish then pure () else terminator
    pure [decl]) <|>
  (do
    if (← atWord "package") || (← atWord "import") then failure
    let stmts ← g.stmt false
    terminator
    pure (stmts.map Decl.stmt))

/-- A whole file. -/
def file : Parser (List Decl) := do
  let items ← many (do
    if (← peek).kind == .finish then failure
    g.topItem)
  if (← peek).kind == .finish then pure items.flatten else failure

end Grammar

/-- The depth of grammar that suffices for a number of tokens: no rule refers to more than three
others without taking one. -/
def sufficientDepth (tokens : Nat) : Nat := 4 * tokens + 8

/-- The declarations of a file, or nothing if it has a syntax error. -/
def parse? (source : String) : Option (List Decl) := do
  let tokens ← tokens? source
  (·.1) <$> (Grammar.upTo (sufficientDepth tokens.length)).file.run tokens

end CallAtlas.Source
