import CallAtlas.Text.Classes

/-!
# Tokens of a Go file

A file is cut into words, literals and signs, the longest one first. Line ends are not tokens:
whether a line end closes a construct depends on the construct, so each token only remembers whether
one stands in front of it. It also keeps the blanks and comments in front of it, so that the text of
any run of tokens can be given back as it was written.

The cut fails on a character that starts no token and on a literal or comment that is not closed.
-/

set_option autoImplicit false

namespace CallAtlas.Source

/-- A place in a file: the line, counted from one, and the number of characters before it. -/
structure Position where
  line : Nat
  offset : Nat
deriving DecidableEq, Repr, Inhabited

/-- What a token is. A text is a string literal in either form of quotes, and `finish` is the end of
the file. -/
inductive TokenKind where
  | word
  | int
  | float
  | imaginary
  | rune
  | text
  | sign
  | finish
deriving DecidableEq, Repr, Inhabited

/-- A token with its place, the blanks and comments before it, and whether these hold a line end
outside of comments. -/
structure Token where
  kind : TokenKind
  text : String
  pos : Position
  before : String
  fresh : Bool
deriving Repr, Inhabited

/-! ## Digits and numbers

Each reader takes the text and gives back what follows the form it reads. -/

/-- A hexadecimal digit. -/
def isHexDigit (c : Char) : Bool :=
  Text.isAsciiDigit c || ('a' ≤ c && c ≤ 'f') || ('A' ≤ c && c ≤ 'F')

/-- An octal digit. -/
def isOctalDigit (c : Char) : Bool := '0' ≤ c && c ≤ '7'

/-- A binary digit. -/
def isBinaryDigit (c : Char) : Bool := c == '0' || c == '1'

/-- Skips more digits, each with at most one low line before it. -/
def moreDigits (p : Char → Bool) : List Char → List Char
  | '_' :: c :: cs => if p c then moreDigits p cs else '_' :: c :: cs
  | c :: cs => if p c then moreDigits p cs else c :: cs
  | [] => []

/-- Skips digits that single low lines may divide. -/
def digits (p : Char → Bool) : List Char → Option (List Char)
  | c :: cs => if p c then some (moreDigits p cs) else none
  | [] => none

/-- Skips one of the given characters. -/
def oneOf (choices : List Char) : List Char → Option (List Char)
  | c :: cs => if choices.contains c then some cs else none
  | [] => none

/-- Skips one of the given characters if it is there. -/
def optionally (choices : List Char) (cs : List Char) : List Char := (oneOf choices cs).getD cs

/-- A number after `0` and a letter for its base. -/
def basedInt (marks : List Char) (p : Char → Bool) : List Char → Option (List Char)
  | '0' :: cs => do digits p (optionally ['_'] (← oneOf marks cs))
  | _ => none

/-- An octal number: `0`, perhaps a letter, and digits. -/
def octalInt : List Char → Option (List Char)
  | '0' :: cs => digits isOctalDigit (optionally ['_'] (optionally ['o', 'O'] cs))
  | _ => none

/-- A decimal number, which is zero or starts with another digit. -/
def decimalInt : List Char → Option (List Char)
  | '0' :: cs => some cs
  | c :: cs =>
    if Text.isAsciiDigit c then some ((digits Text.isAsciiDigit (optionally ['_'] cs)).getD cs)
    else none
  | [] => none

/-- An exponent with one of the given marks. -/
def exponent (marks : List Char) (cs : List Char) : Option (List Char) := do
  digits Text.isAsciiDigit (optionally ['+', '-'] (← oneOf marks cs))

/-- An exponent if there is one. -/
def optionalExponent (marks : List Char) (cs : List Char) : List Char :=
  (exponent marks cs).getD cs

/-- Digits if there are any. -/
def optionalDigits (p : Char → Bool) (cs : List Char) : List Char := (digits p cs).getD cs

/-- Decimal digits, a point, and perhaps more digits and an exponent. -/
def pointedFloat (cs : List Char) : Option (List Char) := do
  let rest ← oneOf ['.'] (← digits Text.isAsciiDigit cs)
  pure (optionalExponent ['e', 'E'] (optionalDigits Text.isAsciiDigit rest))

/-- Decimal digits and an exponent. -/
def scaledFloat (cs : List Char) : Option (List Char) := do
  exponent ['e', 'E'] (← digits Text.isAsciiDigit cs)

/-- A point, decimal digits, and perhaps an exponent. -/
def fractionFloat (cs : List Char) : Option (List Char) := do
  pure (optionalExponent ['e', 'E'] (← digits Text.isAsciiDigit (← oneOf ['.'] cs)))

/-- A hexadecimal number with a binary exponent. -/
def hexFloat : List Char → Option (List Char)
  | '0' :: cs => do
    let body ← oneOf ['x', 'X'] cs
    let mantissa :=
      match digits isHexDigit (optionally ['_'] body) with
      | some rest =>
        match oneOf ['.'] rest with
        | some tail => some (optionalDigits isHexDigit tail)
        | none => some rest
      | none => do digits isHexDigit (← oneOf ['.'] body)
    exponent ['p', 'P'] (← mantissa)
  | _ => none

/-- The forms of an integer. -/
def intForms : List (List Char → Option (List Char)) :=
  [basedInt ['b', 'B'] isBinaryDigit, decimalInt, octalInt, basedInt ['x', 'X'] isHexDigit]

/-- The forms of a number with a fraction or an exponent. -/
def floatForms : List (List Char → Option (List Char)) :=
  [pointedFloat, scaledFloat, fractionFloat, hexFloat]

/-- The forms of a number that the imaginary unit may follow. -/
def imaginaryForms : List (List Char → Option (List Char)) :=
  (digits Text.isAsciiDigit :: intForms ++ floatForms).map fun form cs => do
    oneOf ['i'] (← form cs)

/-- The longer of two readings, given by what follows them. -/
def longer {α : Type} : Option (α × List Char) → Option (α × List Char) → Option (α × List Char)
  | none, b => b
  | some a, none => some a
  | some a, some b => if b.2.length < a.2.length then some b else some a

/-- The longest number at the front of a text, by its kind and what follows it. -/
def number (cs : List Char) : Option (TokenKind × List Char) :=
  let readings (kind : TokenKind) (forms : List (List Char → Option (List Char))) :=
    forms.map fun form => (form cs).map fun rest => (kind, rest)
  (readings .int intForms ++ readings .float floatForms ++ readings .imaginary imaginaryForms).foldl
    longer none

/-! ## Quoted literals -/

/-- Skips exactly `n` hexadecimal digits. -/
def hexDigits : (n : Nat) → List Char → Option (List Char)
  | 0, cs => some cs
  | n + 1, c :: cs => if isHexDigit c then hexDigits n cs else none
  | _ + 1, [] => none

/-- What follows the escape whose backslash has been read, in a string: one of three forms with
hexadecimal digits, or any other character. -/
def textEscape : List Char → Option (List Char)
  | 'x' :: cs => hexDigits 2 cs
  | 'u' :: cs => hexDigits 4 cs
  | 'U' :: cs => hexDigits 8 cs
  | _ :: cs => some cs
  | [] => none

/-- What follows the closing quote of a string. Its characters are neither line ends nor quotes. -/
def closeText : (fuel : Nat) → List Char → Option (List Char)
  | 0, _ => none
  | fuel + 1, '\\' :: cs => do closeText fuel (← textEscape cs)
  | fuel + 1, c :: cs => if c == '"' then some cs else if c == '\n' then none else closeText fuel cs
  | _ + 1, [] => none

/-- What follows the closing quote of a raw string, which may hold anything else. -/
def closeRaw : List Char → Option (List Char)
  | c :: cs => if c == '\x60' then some cs else closeRaw cs
  | [] => none

/-- What follows the escape whose backslash has been read, in a rune. -/
def runeEscape : List Char → Option (List Char)
  | 'x' :: cs => hexDigits 2 cs
  | 'u' :: cs => hexDigits 4 cs
  | 'U' :: cs => hexDigits 8 cs
  | a :: b :: c :: cs =>
    if isOctalDigit a && isOctalDigit b && isOctalDigit c then some cs
    else oneOf ['a', 'b', 'f', 'n', 'r', 't', 'v', '\\', '\'', '"'] (a :: b :: c :: cs)
  | cs => oneOf ['a', 'b', 'f', 'n', 'r', 't', 'v', '\\', '\'', '"'] cs

/-- What follows a rune literal whose opening quote has been read. -/
def closeRune : List Char → Option (List Char)
  | '\\' :: cs => do oneOf ['\''] (← runeEscape cs)
  | c :: cs => if c == '\'' then none else oneOf ['\''] cs
  | [] => none

/-! ## Signs -/

/-- The signs of the language by length, the longest first. -/
def signs : List String :=
  ["&^=", "<<=", ">>=", "...",
   "&&", "||", "<-", "++", "--", "==", "!=", "<=", ">=", ":=", "+=", "-=", "*=", "/=", "%=", "&=",
   "|=", "^=", "<<", ">>", "&^",
   "+", "-", "*", "/", "%", "&", "|", "^", "<", ">", "=", "!", "(", ")", "[", "]", "\x7b", "\x7d",
   ",", ";", ".", ":", "~"]

/-- What follows the longest sign at the front of a text. -/
def closeSign (cs : List Char) : Option (List Char) :=
  signs.findSome? fun s => Text.dropPrefix? s.toList cs

/-! ## Blanks and comments -/

/-- A character that only divides tokens. -/
def isGap (c : Char) : Bool := c == ' ' || c == '\t' || c == '\r' || c == '\n'

/-- What follows the end of a comment in stars. -/
def closeComment : List Char → Option (List Char)
  | '*' :: '/' :: cs => some cs
  | _ :: cs => closeComment cs
  | [] => none

/-- What follows the blanks and comments at the front of a text, and whether a line end stands among
them outside of comments. -/
def skipGap : (fuel : Nat) → Bool → List Char → Option (Bool × List Char)
  | 0, fresh, cs => some (fresh, cs)
  | fuel + 1, fresh, cs =>
    match cs with
    | '/' :: '/' :: rest => skipGap fuel fresh (rest.dropWhile (· != '\n'))
    | '/' :: '*' :: rest => do skipGap fuel fresh (← closeComment rest)
    | c :: rest => if isGap c then skipGap fuel (fresh || c == '\n') rest else some (fresh, cs)
    | [] => some (fresh, cs)

/-! ## The cut -/

/-- The kind of the token at the front of a text, and what follows it. -/
def oneToken (cs : List Char) : Option (TokenKind × List Char) :=
  match cs with
  | [] => none
  | c :: rest =>
    if Text.isIdentStart c then some (.word, rest.dropWhile Text.isIdentContinue)
    else if c == '"' then (closeText (rest.length + 1) rest).map fun r => (.text, r)
    else if c == '\x60' then (closeRaw rest).map fun r => (.text, r)
    else if c == '\'' then (closeRune rest).map fun r => (.rune, r)
    else
      match number cs with
      | some reading => some reading
      | none => (closeSign cs).map fun r => (.sign, r)

/-- The part of `cs` in front of its tail `rest`. -/
def consumed (cs rest : List Char) : List Char := cs.take (cs.length - rest.length)

/-- The place behind some characters. -/
def Position.advance (pos : Position) (cs : List Char) : Position :=
  { line := pos.line + cs.count '\n', offset := pos.offset + cs.length }

/-- Cuts the text at `pos` into tokens, the last of which is the end of the file. -/
def tokensFrom : (fuel : Nat) → Position → List Char → Option (List Token)
  | 0, _, _ => none
  | fuel + 1, pos, cs => do
    let (fresh, rest) ← skipGap (cs.length + 1) false cs
    let gap := consumed cs rest
    let start := pos.advance gap
    let before := String.ofList gap
    if rest.isEmpty then pure [{ kind := .finish, text := "", pos := start, before, fresh }]
    else
      let (kind, tail) ← oneToken rest
      let body := consumed rest tail
      let token := { kind, text := String.ofList body, pos := start, before, fresh }
      pure (token :: (← tokensFrom fuel (start.advance body) tail))

/-- The tokens of a file; a byte order mark in front of it is skipped. -/
def tokens? (source : String) : Option (List Token) :=
  let cs := source.toList
  let body := if cs.head? = some '\ufeff' then cs.tail else cs
  tokensFrom (body.length + 1) { line := 1, offset := 0 } body

/-- The text that a run of tokens was cut from, without what stands in front of the first. -/
def sourceText : List Token → String
  | [] => ""
  | t :: ts => t.text ++ String.join (ts.map fun u => u.before ++ u.text)

end CallAtlas.Source
