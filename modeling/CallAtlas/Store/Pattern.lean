import CallAtlas.Text.Case

/-!
# Search patterns

A pattern matches a text as a whole. `%` stands for any text and `_` for any character; a backslash
makes the next character stand for itself. Letters of ASCII match in both cases, and no others do.
-/

set_option autoImplicit false

namespace CallAtlas.Store

/-- A part of a pattern. -/
inductive PatternItem where
  | anyText
  | anyChar
  | char (c : Char)
deriving DecidableEq, Repr, Inhabited

namespace Pattern

/-- The pattern that a text stands for; it must not end in a lone backslash. -/
def ofChars : List Char → Option (List PatternItem)
  | [] => some []
  | '\\' :: c :: rest => (ofChars rest).map (.char c :: ·)
  | c :: rest =>
    if c = '\\' then none
    else if c = '%' then (ofChars rest).map (.anyText :: ·)
    else if c = '_' then (ofChars rest).map (.anyChar :: ·)
    else (ofChars rest).map (.char c :: ·)

/-- A text as a pattern for itself. -/
def literal (cs : List Char) : List Char :=
  cs.flatMap fun c => if c = '%' || c = '_' || c = '\\' then ['\\', c] else [c]

/-- Some suffix satisfies a condition. -/
def anySuffix (q : List Char → Bool) : List Char → Bool
  | [] => q []
  | c :: rest => q (c :: rest) || anySuffix q rest

/-- The pattern matches the text. -/
def matchesAll : List PatternItem → List Char → Bool
  | [], cs => cs.isEmpty
  | .anyText :: rest, cs => anySuffix (matchesAll rest) cs
  | .anyChar :: rest, cs =>
    match cs with
    | [] => false
    | _ :: cs => matchesAll rest cs
  | .char p :: rest, cs =>
    match cs with
    | [] => false
    | c :: cs => Text.lowerAscii p == Text.lowerAscii c && matchesAll rest cs

/-- The pattern that a text stands for matches another text. -/
def accepts (pattern text : List Char) : Bool :=
  match ofChars pattern with
  | some items => matchesAll items text
  | none => false

end Pattern

end CallAtlas.Store
