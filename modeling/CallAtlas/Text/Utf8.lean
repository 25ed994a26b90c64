/-!
# UTF-8 with gaps

Bytes as text, where every sequence of bytes that starts a character and cannot end it becomes one
replacement character. The bytes are read one at a time; the state between two bytes is the
character that is still open.
-/

set_option autoImplicit false

namespace CallAtlas.Text.Utf8

/-- A character whose last bytes are missing: its code so far, the number of bytes missing, and the
range of the next one. -/
structure OpenChar where
  code : Nat
  missing : Nat
  low : Nat := 0x80
  high : Nat := 0xBF
deriving DecidableEq, Repr, Inhabited

/-- What stands for bytes that are no text. -/
def replacement : Char := Char.ofNat 0xFFFD

/-- A byte that no character is open for: the characters it completes and the one it opens. -/
def first (b : Nat) : List Char × Option OpenChar :=
  if b < 0x80 then ([Char.ofNat b], none)
  else if b < 0xC2 then ([replacement], none)
  else if b < 0xE0 then ([], some { code := b - 0xC0, missing := 1 })
  else if b = 0xE0 then ([], some { code := 0, missing := 2, low := 0xA0 })
  else if b = 0xED then ([], some { code := 0xD, missing := 2, high := 0x9F })
  else if b < 0xF0 then ([], some { code := b - 0xE0, missing := 2 })
  else if b = 0xF0 then ([], some { code := 0, missing := 3, low := 0x90 })
  else if b < 0xF4 then ([], some { code := b - 0xF0, missing := 3 })
  else if b = 0xF4 then ([], some { code := 4, missing := 3, high := 0x8F })
  else ([replacement], none)

/-- A byte after an open character. One that does not continue it starts anew. -/
def next (p : OpenChar) (b : Nat) : List Char × Option OpenChar :=
  if p.low ≤ b && b ≤ p.high then
    let code := p.code * 64 + (b - 0x80)
    if p.missing ≤ 1 then ([Char.ofNat code], none)
    else ([], some { code, missing := p.missing - 1 })
  else
    let (cs, state) := first b
    (replacement :: cs, state)

/-- The characters of some bytes after a state. -/
def decodeFrom : Option OpenChar → List UInt8 → List Char
  | none, [] => []
  | some _, [] => [replacement]
  | none, b :: rest => (first b.toNat).1 ++ decodeFrom (first b.toNat).2 rest
  | some p, b :: rest => (next p b.toNat).1 ++ decodeFrom (next p b.toNat).2 rest

/-- The text of some bytes. -/
def decode (bytes : List UInt8) : String := String.ofList (decodeFrom none bytes)

end CallAtlas.Text.Utf8
