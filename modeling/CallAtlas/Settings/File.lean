import CallAtlas.FileTree
import CallAtlas.Error
import CallAtlas.Text.Basic

/-!
# Settings files

A settings file is a TOML document with six keys at most, of which five are texts and one is a
natural number. Tables, dotted keys and values of other kinds are never right under these keys, so
only lines of the form `key = value` are read, where a value is one of the four kinds of strings or
an integer. Everything else makes the file invalid.
-/

set_option autoImplicit false

namespace CallAtlas

/-- What a settings file says. -/
structure FileSettings where
  root : Option String := none
  algorithm : Option String := none
  ignore : Option String := none
  capacity : Option Nat := none
  database : Option String := none
  output : Option String := none
deriving DecidableEq, Repr, Inhabited

namespace FileSettings

/-- A value of a key. -/
inductive Value where
  | text (s : String)
  | number (n : Int)
deriving DecidableEq, Repr, Inhabited

/-! ## Characters -/

/-- White space inside a line. -/
def isGap (c : Char) : Bool := c = ' ' || c = '\t'

/-- A character that may stand in comments and on a line of a string. -/
def isPlain (c : Char) : Bool := c = '\t' || (' ' ≤ c && c ≠ '\x7f')

/-- A character of a key without quotes. -/
def isKeyChar (c : Char) : Bool := c.isAlphanum || c = '_' || c = '-'

/-- The input after white space. -/
def skipGap (cs : List Char) : List Char := cs.dropWhile isGap

/-- The value of a digit in any base up to sixteen. -/
def digit? (c : Char) : Option Nat :=
  if c.isDigit then some (c.toNat - '0'.toNat)
  else if 'a' ≤ c && c ≤ 'f' then some (c.toNat - 'a'.toNat + 10)
  else if 'A' ≤ c && c ≤ 'F' then some (c.toNat - 'A'.toNat + 10)
  else none

/-- The number that digits of a base give; every digit belongs to the base. -/
def ofDigits? (base : Nat) (cs : List Char) : Option Nat :=
  cs.foldlM (fun n c => do
    let d ← digit? c
    if d < base then some (n * base + d) else none) 0

/-- The character with a code of hexadecimal digits. -/
def charOfHex? (cs : List Char) : Option Char := do
  let n ← ofDigits? 16 cs
  if n < 0xD800 || (0xDFFF < n && n < 0x110000) then some (Char.ofNat n) else none

/-! ## Strings

Each reader takes what stands behind the opening quotes, up to and with the closing ones. -/

/-- What a backslash with a letter stands for. -/
def unescape? (c : Char) : Option Char :=
  if c = '"' || c = '\\' then some c
  else if c = 'b' then some '\x08'
  else if c = 't' then some '\t'
  else if c = 'n' then some '\n'
  else if c = 'f' then some '\x0c'
  else if c = 'r' then some '\r'
  else none

/-- Puts a character in front of a text that is read. -/
def cons (c : Char) (r : List Char × List Char) : List Char × List Char := (c :: r.1, r.2)

/-- A string on one line with escapes. -/
def basicLine : List Char → Option (List Char × List Char)
  | [] => none
  | '"' :: rest => some ([], rest)
  | '\\' :: 'u' :: a :: b :: c :: d :: rest => do
    return cons (← charOfHex? [a, b, c, d]) (← basicLine rest)
  | '\\' :: 'U' :: a :: b :: c :: d :: e :: f :: g :: h :: rest => do
    return cons (← charOfHex? [a, b, c, d, e, f, g, h]) (← basicLine rest)
  | '\\' :: c :: rest => do return cons (← unescape? c) (← basicLine rest)
  | c :: rest => if isPlain c && c ≠ '\\' then (basicLine rest).map (cons c) else none

/-- A string on one line as it stands. -/
def literalLine : List Char → Option (List Char × List Char)
  | [] => none
  | '\'' :: rest => some ([], rest)
  | c :: rest => if isPlain c then (literalLine rest).map (cons c) else none

/-- Only white space stands before the next line. -/
def endsLine (cs : List Char) : Bool :=
  match skipGap cs with
  | '\n' :: _ => true
  | '\r' :: '\n' :: _ => true
  | _ => false

/-- A string on several lines with escapes. Up to two quotes may stand before the closing ones. A
backslash at the end of a line takes away all white space up to the next character; `trim` says that
this is going on. -/
def basicLines (trim : Bool) : List Char → Option (List Char × List Char)
  | [] => none
  | '"' :: '"' :: '"' :: '"' :: '"' :: rest => some (['"', '"'], rest)
  | '"' :: '"' :: '"' :: '"' :: rest => some (['"'], rest)
  | '"' :: '"' :: '"' :: rest => some ([], rest)
  | '\r' :: '\n' :: rest =>
    if trim then basicLines true rest else (basicLines false rest).map (cons '\n')
  | '\\' :: 'u' :: a :: b :: c :: d :: rest => do
    return cons (← charOfHex? [a, b, c, d]) (← basicLines false rest)
  | '\\' :: 'U' :: a :: b :: c :: d :: e :: f :: g :: h :: rest => do
    return cons (← charOfHex? [a, b, c, d, e, f, g, h]) (← basicLines false rest)
  | '\\' :: c :: rest =>
    if endsLine (c :: rest) then basicLines true (c :: rest)
    else do return cons (← unescape? c) (← basicLines false rest)
  | c :: rest =>
    if trim && (isGap c || c = '\n') then basicLines true rest
    else if (isPlain c && c ≠ '\\') || c = '\n' then (basicLines false rest).map (cons c)
    else none

/-- A string on several lines as it stands. -/
def literalLines : List Char → Option (List Char × List Char)
  | [] => none
  | '\'' :: '\'' :: '\'' :: '\'' :: '\'' :: rest => some (['\'', '\''], rest)
  | '\'' :: '\'' :: '\'' :: '\'' :: rest => some (['\''], rest)
  | '\'' :: '\'' :: '\'' :: rest => some ([], rest)
  | '\r' :: '\n' :: rest => (literalLines rest).map (cons '\n')
  | c :: rest => if isPlain c || c = '\n' then (literalLines rest).map (cons c) else none

/-- The input without a line end at its start. -/
def dropNewline : List Char → List Char
  | '\n' :: rest => rest
  | '\r' :: '\n' :: rest => rest
  | cs => cs

/-- A string on one line, in one of the two kinds of quotes. -/
def lineString? (cs : List Char) : Option (List Char × List Char) :=
  match cs with
  | '"' :: rest => basicLine rest
  | '\'' :: rest => literalLine rest
  | _ => none

/-- A string of any kind. -/
def string? (cs : List Char) : Option (List Char × List Char) :=
  match cs with
  | '"' :: '"' :: '"' :: rest => basicLines false (dropNewline rest)
  | '\'' :: '\'' :: '\'' :: rest => literalLines (dropNewline rest)
  | _ => lineString? cs

/-! ## Integers -/

/-- The digits of a number, where single underscores may stand between two digits. -/
def plainDigits? (cs : List Char) : Option (List Char) :=
  let pieces := (Text.split '_' (String.ofList cs)).map String.toList
  if pieces.any List.isEmpty then none else some pieces.flatten

/-- A number in base ten; zero stands in front of no other digit. -/
def decimal? (cs : List Char) : Option Nat := do
  let digits ← plainDigits? cs
  if 1 < digits.length && digits.head? == some '0' then none else ofDigits? 10 digits

/-- The number that a word stands for: a sign and a number in base ten, or one in another base. -/
def integer? (word : List Char) : Option Int :=
  match word with
  | '0' :: 'x' :: rest => do return Int.ofNat (← ofDigits? 16 (← plainDigits? rest))
  | '0' :: 'o' :: rest => do return Int.ofNat (← ofDigits? 8 (← plainDigits? rest))
  | '0' :: 'b' :: rest => do return Int.ofNat (← ofDigits? 2 (← plainDigits? rest))
  | '-' :: rest => do return - Int.ofNat (← decimal? rest)
  | '+' :: rest => do return Int.ofNat (← decimal? rest)
  | _ => do return Int.ofNat (← decimal? word)

/-- A character of a number. -/
def isNumberChar (c : Char) : Bool := c.isAlphanum || c = '_' || c = '+' || c = '-'

/-! ## Lines -/

/-- A value. -/
def value? (cs : List Char) : Option (Value × List Char) :=
  match string? cs with
  | some (s, rest) => some (.text (String.ofList s), rest)
  | none => do
    return (.number (← integer? (cs.takeWhile isNumberChar)), cs.dropWhile isNumberChar)

/-- A key. -/
def key? (cs : List Char) : Option (String × List Char) :=
  match lineString? cs with
  | some (s, rest) => some (String.ofList s, rest)
  | none =>
    match cs.takeWhile isKeyChar with
    | [] => none
    | word => some (String.ofList word, cs.dropWhile isKeyChar)

/-- The input after the end of a line: white space, a comment, and the line end or the end of the
file. -/
def lineEnd? (cs : List Char) : Option (List Char) :=
  let rest := skipGap cs
  let rest := if rest.head? == some '#' then rest.dropWhile isPlain else rest
  match rest with
  | [] => some []
  | '\n' :: rest => some rest
  | '\r' :: '\n' :: rest => some rest
  | _ => none

/-- A key with its value. -/
def entry? (cs : List Char) : Option ((String × Value) × List Char) := do
  let (key, rest) ← key? cs
  match skipGap rest with
  | '=' :: rest =>
    let (v, rest) ← value? (skipGap rest)
    return ((key, v), ← lineEnd? rest)
  | _ => none

/-- All keys with their values, in at most `fuel` lines. -/
def entries? : (fuel : Nat) → List Char → Option (List (String × Value))
  | 0, _ => none
  | fuel + 1, cs =>
    match skipGap cs with
    | [] => some []
    | cs =>
      match lineEnd? cs with
      | some rest => entries? fuel rest
      | none => do
        let (e, rest) ← entry? cs
        return e :: (← entries? fuel rest)

/-- The largest integer of a file. -/
def maxCapacity : Nat := 9223372036854775807

/-- The settings with one more key; each may stand there once. -/
def set? (s : FileSettings) (e : String × Value) : Option FileSettings :=
  let once (old : Option String) (f : String → FileSettings) : Option FileSettings :=
    match old, e.2 with
    | none, .text new => some (f new)
    | _, _ => none
  match e.1 with
  | "root" => once s.root fun t => { s with root := some t }
  | "algo" => once s.algorithm fun t => { s with algorithm := some t }
  | "ignore" => once s.ignore fun t => { s with ignore := some t }
  | "database" => once s.database fun t => { s with database := some t }
  | "output" => once s.output fun t => { s with output := some t }
  | "channel_capacity" =>
    match s.capacity, e.2 with
    | none, .number (.ofNat n) =>
      if n ≤ maxCapacity then some { s with capacity := some n } else none
    | _, _ => none
  | _ => none

/-- The settings that a text holds. A byte order mark may stand in front. -/
def parse? (text : String) : Option FileSettings := do
  let cs := text.toList
  let cs := if cs.head? == some (Char.ofNat 0xFEFF) then cs.tail else cs
  (← entries? (cs.length + 1) cs).foldlM set? {}

/-- The settings that a text holds. -/
def parse (text : String) : Except Error FileSettings :=
  match parse? text with
  | some s => .ok s
  | none => .error .config

end FileSettings

/-- The settings in a file. -/
def Disk.fileSettings (d : Disk) (path : String) : Except Error FileSettings := do
  FileSettings.parse (← (d.read path).mapError Error.io)

end CallAtlas
