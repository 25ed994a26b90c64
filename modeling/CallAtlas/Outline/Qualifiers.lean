import CallAtlas.Source.Tree

/-!
# Qualifiers

A name qualifies another if it stands in front of a dot, in a type or as a plain name in an
expression. An import whose name qualifies nothing in its file is not used.
-/

set_option autoImplicit false

namespace CallAtlas.Outline

open Source (TypeExpr Entry Expr Stmt TypeCase TypeSpec)

mutual

/-- The qualifiers in a type. -/
def typeQualifiers : TypeExpr → List String
  | .name _ => []
  | .qualified pkg _ => [pkg]
  | .pointer t | .slice t | .chan t | .paren t | .negated t => typeQualifiers t
  | .array length t => exprQualifiers length ++ typeQualifiers t
  | .map a b | .union a b => typeQualifiers a ++ typeQualifiers b
  | .func params results => entryQualifiers params ++ entryQualifiers results
  | .interface entries | .struct entries => entryQualifiers entries
  | .generic base args => typeQualifiers base ++ typesQualifiers args

/-- The qualifiers in a list of types. -/
def typesQualifiers : List TypeExpr → List String
  | [] => []
  | t :: rest => typeQualifiers t ++ typesQualifiers rest

/-- The qualifiers in a list of entries. -/
def entryQualifiers : List Entry → List String
  | [] => []
  | .mk _ ty _ :: rest => typeQualifiers ty ++ entryQualifiers rest

/-- The qualifiers in an expression. -/
def exprQualifiers : Expr → List String
  | .ident _ | .literal _ => []
  | .selector (.ident n) _ => [n]
  | .selector e _ => exprQualifiers e
  | .index a b | .binary a b | .keyed a b => exprQualifiers a ++ exprQualifiers b
  | .slice e bounds => exprQualifiers e ++ exprsQualifiers bounds
  | .call _ f types args => exprQualifiers f ++ typesQualifiers types ++ exprsQualifiers args
  | .assert e t => exprQualifiers e ++ typeQualifiers t
  | .convert t e => typeQualifiers t ++ exprQualifiers e
  | .composite t elems => typeQualifiers t ++ exprsQualifiers elems
  | .funcLit _ params results body =>
    entryQualifiers params ++ entryQualifiers results ++ stmtsQualifiers body
  | .unary _ e | .paren e | .spread e => exprQualifiers e
  | .type t => typeQualifiers t
  | .elements elems => exprsQualifiers elems

/-- The qualifiers in a list of expressions. -/
def exprsQualifiers : List Expr → List String
  | [] => []
  | e :: rest => exprQualifiers e ++ exprsQualifiers rest

/-- The qualifiers in a statement. -/
def stmtQualifiers : Stmt → List String
  | .define a b | .assign a b => exprsQualifiers a ++ exprsQualifiers b
  | .var _ _ ty values | .const _ ty values => optionQualifiers ty ++ exprsQualifiers values
  | .types specs => specsQualifiers specs
  | .ret values => exprsQualifiers values
  | .expr e | .test e | .step e => exprQualifiers e
  | .range names _ e | .receive names _ e => exprsQualifiers names ++ exprQualifiers e
  | .send a b => exprQualifiers a ++ exprQualifiers b
  | .compound parts => stmtsQualifiers parts
  | .typeSwitch init binding e cases =>
    stmtsQualifiers init ++ exprsQualifiers binding ++ exprQualifiers e ++ casesQualifiers cases

/-- The qualifiers in a type that may be missing. -/
def optionQualifiers : Option TypeExpr → List String
  | none => []
  | some t => typeQualifiers t

/-- The qualifiers in a list of statements. -/
def stmtsQualifiers : List Stmt → List String
  | [] => []
  | s :: rest => stmtQualifiers s ++ stmtsQualifiers rest

/-- The qualifiers in the cases of a type switch. -/
def casesQualifiers : List TypeCase → List String
  | [] => []
  | .mk types body :: rest => typesQualifiers types ++ stmtsQualifiers body ++ casesQualifiers rest

/-- The qualifiers in declarations of types. -/
def specsQualifiers : List TypeSpec → List String
  | [] => []
  | .mk _ _ params ty _ :: rest =>
    entryQualifiers params ++ typeQualifiers ty ++ specsQualifiers rest

end

/-- The qualifiers in a declaration. -/
def declQualifiers : Source.Decl → List String
  | .package _ | .imports _ => []
  | .func f =>
    entryQualifiers ((f.receiver.map (·.entries)).getD []) ++ entryQualifiers f.typeParams ++
      entryQualifiers f.params ++ entryQualifiers f.results ++ stmtsQualifiers (f.body.getD [])
  | .stmt s => stmtQualifiers s

end CallAtlas.Outline
