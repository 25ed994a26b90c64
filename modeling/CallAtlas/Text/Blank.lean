import CallAtlas.Text.Basic

/-!
# Blank characters

A character is blank if the Unicode standard calls it white space. Names of settings are trimmed of
blanks, and the module line of a manifest is divided by them.
-/

set_option autoImplicit false

namespace CallAtlas.Text

/-- White space in the sense of the Unicode standard. -/
def isBlank (c : Char) : Bool :=
  let n := c.toNat
  (0x9 ≤ n && n ≤ 0xD) || n == 0x20 || n == 0x85 || n == 0xA0 || n == 0x1680 ||
    (0x2000 ≤ n && n ≤ 0x200A) || n == 0x2028 || n == 0x2029 || n == 0x202F || n == 0x205F ||
    n == 0x3000

/-- `s` without the blanks at its ends. -/
def trim (s : String) : String := String.ofList (trimBy isBlank s.toList)

/-- The maximal pieces of `cs` that hold no blank. -/
def wordsOf (cs : List Char) : List (List Char) :=
  (splitBy isBlank cs).filter fun w => !w.isEmpty

end CallAtlas.Text
