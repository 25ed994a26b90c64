/-!
# Text as lists of characters

Everything that reads text in this library works on `List Char`, where a cut is a constructor and a
scan is an induction. The functions below are the few cuts and tests that the readers share; those
that take and give `String` only convert at both ends.
-/

set_option autoImplicit false

namespace CallAtlas.Text

/-- What is left of `cs` behind the prefix `p`. -/
def dropPrefix? : (p cs : List Char) → Option (List Char)
  | [], cs => some cs
  | _ :: _, [] => none
  | a :: p, c :: cs => if a = c then dropPrefix? p cs else none

/-- What is left of `cs` in front of the suffix `p`. -/
def dropSuffix? (p cs : List Char) : Option (List Char) :=
  (dropPrefix? p.reverse cs.reverse).map List.reverse

/-- The pieces of `cs` between the characters that satisfy `p`; there is always one more piece than
there are such characters. -/
def splitBy (p : Char → Bool) : List Char → List (List Char)
  | [] => [[]]
  | c :: cs =>
    if p c then [] :: splitBy p cs
    else
      match splitBy p cs with
      | [] => [[c]]
      | w :: ws => (c :: w) :: ws

/-- `needle` stands somewhere in `cs`. -/
def isInfix (needle : List Char) : List Char → Bool
  | [] => needle.isEmpty
  | c :: cs => needle.isPrefixOf (c :: cs) || isInfix needle cs

/-- Drops the characters that satisfy `p` from both ends. -/
def trimBy (p : Char → Bool) (cs : List Char) : List Char :=
  ((cs.dropWhile p).reverse.dropWhile p).reverse

/-- The lines of a text: a line ends at a line feed, a carriage return in front of it belongs to the
line end, and a last line without an end is a line unless it is empty. -/
def linesOf (cs : List Char) : List (List Char) :=
  let pieces := splitBy (· == '\n') cs
  let closed := pieces.dropLast.map fun line => (dropSuffix? ['\r'] line).getD line
  match pieces.getLast? with
  | some [] | none => closed
  | some last => closed ++ [last]

/-- `s` begins with `p`. -/
def startsWith (p s : String) : Bool := p.toList.isPrefixOf s.toList

/-- `s` ends with `p`. -/
def endsWith (p s : String) : Bool := p.toList.isSuffixOf s.toList

/-- `needle` stands somewhere in `s`. -/
def contains (needle s : String) : Bool := isInfix needle.toList s.toList

/-- What is left of `s` behind the prefix `p`. -/
def stripPrefix? (p s : String) : Option String := (dropPrefix? p.toList s.toList).map String.ofList

/-- What is left of `s` in front of the suffix `p`. -/
def stripSuffix? (p s : String) : Option String := (dropSuffix? p.toList s.toList).map String.ofList

/-- The pieces of `s` between the characters `c`. -/
def split (c : Char) (s : String) : List String := (splitBy (· == c) s.toList).map String.ofList

/-- The pieces of a list of texts with `sep` between them. -/
def join (sep : String) (pieces : List String) : String := sep.intercalate pieces

end CallAtlas.Text
