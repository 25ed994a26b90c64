import CallAtlas.Source.Parser

/-!
# The rules for types

A union binds looser than a star, a channel or a tilde, but a slice, an array, a map or a function
result reaches over it. The words that start a type are reserved where a type may stand, and every
other word names one.
-/

set_option autoImplicit false

namespace CallAtlas.Source

/-- The words that start a type. -/
def typeWords : List String := ["func", "struct", "interface", "map", "chan"]

/-- An entry of a parameter list before names are told from types: the tokens of its type are
kept. -/
inductive RawEntry where
  | lone (ty : TypeExpr) (span : List Token)
  | named (name : String) (ty : TypeExpr) (span : List Token)
  | variadic (name : Option String) (ty : TypeExpr)

/-- An entry of a parameter list with the tokens of its type. -/
abbrev SpannedEntry := Entry × List Token

/-- The type of an entry that has no name. -/
def RawEntry.unnamed : TypeExpr × List Token → SpannedEntry
  | (ty, span) => (.mk [] ty false, span)

/-- Tells names from types: words that stand alone in front of a name with its type are names of
that type as well, and all other entries that stand alone are types. `names` and `pending` hold the
words and types of the open group in the order they are written. -/
def groupEntries (names : List String) (pending : List (TypeExpr × List Token)) :
    List RawEntry → List SpannedEntry
  | [] => pending.map RawEntry.unnamed
  | .lone (.name n) span :: rest =>
    groupEntries (names ++ [n]) (pending ++ [(.name n, span)]) rest
  | .lone ty span :: rest =>
    pending.map RawEntry.unnamed ++ (.mk [] ty false, span) :: groupEntries [] [] rest
  | .named n ty span :: rest => (.mk (names ++ [n]) ty false, span) :: groupEntries [] [] rest
  | .variadic n ty :: rest =>
    pending.map RawEntry.unnamed ++ (.mk n.toList ty true, []) :: groupEntries [] [] rest

namespace Grammar

variable (g : Grammar)

/-- An entry of a parameter list. -/
def rawEntry : Parser RawEntry :=
  (do
    let name ← optionalOf (nameExcept typeWords)
    sign "..."
    pure (.variadic name (← g.type false))) <|>
  (do
    let name ← nameExcept typeWords
    let (ty, span) ← spanned (g.type false)
    let closed := (← atSign ",") || (← atSign ")") || (← atSign "]")
    if closed then pure (.named name ty span) else failure) <|>
  (do
    let (ty, span) ← spanned (g.type false)
    pure (.lone ty span))

/-- A parameter list in parentheses, with the tokens of the types. -/
def spannedParams : Parser (List SpannedEntry) := do
  sign "("
  let raw ← commaList g.rawEntry
  sign ")"
  pure (groupEntries [] [] raw)

/-- A parameter list in parentheses. -/
def params : Parser (List Entry) := do pure ((← g.spannedParams).map Prod.fst)

/-- The type parameters of a declaration in brackets. -/
def typeParams : Parser (List Entry) := do
  sign "["
  let raw ← commaSep1 g.rawEntry
  let _ ← optionalSign ","
  sign "]"
  let entries := (groupEntries [] [] raw).map Prod.fst
  if entries.any fun | .mk _ _ variadic => variadic then failure else pure entries

/-- The type arguments behind a name in brackets. -/
def typeArgs : Parser (List TypeExpr) := do
  sign "["
  let args ← commaSep1 (g.type false)
  let _ ← optionalSign ","
  sign "]"
  pure args

/-- What a function gives back: a list in parentheses, one type, or nothing. -/
def results (lines : Bool) : Parser (List Entry) := do
  if ← onLine lines then
    if ← atSign "(" then g.params
    else
      match ← optionalOf (g.type lines) with
      | some ty => pure [.mk [] ty false]
      | none => pure []
  else pure []

/-- A plain or qualified name, perhaps with type arguments. -/
def namedType (lines : Bool) : Parser TypeExpr := do
  let first ← nameExcept typeWords
  let base ←
    if ← atSignOn lines "." then
      sign "."
      let second ← anyName
      pure (TypeExpr.qualified first second)
    else pure (TypeExpr.name first)
  if ← atSignOn lines "[" then
    match ← optionalOf g.typeArgs with
    | some args => pure (.generic base args)
    | none => pure base
  else pure base

/-- An embedded field: a name with perhaps a star before it. -/
def embeddedField : Parser Entry := do
  let star ← optionalSign "*"
  let ty ← (g.namedType true : Parser TypeExpr)
  pure (.mk [] (if star then .pointer ty else ty) false)

/-- A field of a struct with its tag, up to the end of its line. -/
def field : Parser Entry := do
  let entry ←
    (do
      let entry ← g.embeddedField
      let t ← peek
      let closed := t.fresh || t.kind == .text || (← atSign ";") || (← atSign "\x7d")
      if closed then pure entry else failure) <|>
    (do
      let names ← commaSep1 anyName
      let ty ← g.type true
      pure (.mk names ty false))
  let t ← peek
  if t.kind == .text && !t.fresh then let _ ← advance
  pure entry

/-- The fields of a struct in braces. -/
def structBody : Parser (List Entry) := do
  sign "\x7b"
  let fields ← optionalOf (lineList1 g.field)
  sign "\x7d"
  pure (fields.getD [])

/-- A member of an interface: a method, or a type without parentheses around it. -/
def member : Parser Entry :=
  (do
    let name ← nameExcept typeWords
    if ← onLine true then
      let params ← g.params
      let results ← g.results true
      pure (.mk [name] (.func params results) false)
    else failure) <|>
  (do
    if ← atSign "(" then failure
    pure (.mk [] (← g.type true) false))

/-- The members of an interface in braces. -/
def interfaceBody : Parser (List Entry) := do
  sign "\x7b"
  let members ← optionalOf (lineList1 g.member)
  sign "\x7d"
  pure (members.getD [])

/-- A slice or an array. -/
def bracketType (lines : Bool) : Parser TypeExpr := do
  sign "["
  if ← optionalSign "]" then pure (.slice (← g.type lines))
  else
    let length ← g.expr .inner
    sign "]"
    pure (.array length (← g.type lines))

/-- A type that starts with one of the type words. -/
def wordType (lines : Bool) : Parser TypeExpr :=
  (do keyword "struct"; pure (.struct (← g.structBody))) <|>
  (do keyword "interface"; pure (.interface (← g.interfaceBody))) <|>
  (do
    keyword "map"
    sign "["
    let key ← g.type false
    sign "]"
    pure (.map key (← g.type lines))) <|>
  (do
    keyword "chan"
    let _ ← optionalSign "<-"
    pure (.chan (← g.term lines))) <|>
  (do
    keyword "func"
    let params ← g.params
    pure (.func params (← g.results lines)))

/-- The rule for a type that is not a union. -/
def termRule (lines : Bool) : Parser TypeExpr := do
  let t ← peek
  match t.kind, t.text with
  | .sign, "*" => sign "*"; pure (.pointer (← g.term lines))
  | .sign, "~" => sign "~"; pure (.negated (← g.term lines))
  | .sign, "(" =>
    sign "("
    let inner ← g.type false
    sign ")"
    pure (.paren inner)
  | .sign, "[" => g.bracketType lines
  | .sign, "<-" => sign "<-"; keyword "chan"; pure (.chan (← g.term lines))
  | .word, w => if typeWords.contains w then g.wordType lines else g.namedType lines
  | _, _ => failure

/-- The rule for a type: terms of a union, taken from the left. -/
def typeRule (lines : Bool) : Parser TypeExpr := do
  let first ← g.term lines
  let rest ← many (do
    if ← onLine lines then
      sign "|"
      g.term lines
    else failure)
  pure (rest.foldl TypeExpr.union first)

end Grammar

end CallAtlas.Source
