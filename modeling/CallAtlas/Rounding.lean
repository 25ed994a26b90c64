/-!
# Rounding

Quotients rounded to the nearest whole number or to 53 significant bits, a half to the even
neighbour. A number is given by its numerator and denominator, so nothing is lost before the
rounding.
-/

set_option autoImplicit false

namespace CallAtlas

/-- A number as numerator and denominator. -/
structure Ratio where
  num : Nat
  den : Nat := 1
deriving DecidableEq, Repr, Inhabited

namespace Ratio

/-- The nearest whole number; a half goes to the even neighbour. -/
def round (q : Ratio) : Nat :=
  let whole := q.num / q.den
  let twice := 2 * (q.num % q.den)
  if q.den < twice || (twice == q.den && whole % 2 == 1) then whole + 1 else whole

/-- Doubled `up` times and halved `down` times. -/
def scale (q : Ratio) (up down : Nat) : Ratio := ⟨q.num <<< up, q.den <<< down⟩

/-- The nearest number with 53 significant bits. The quotient is scaled so that its whole part has
53 bits, rounded, and scaled back. -/
def roundBits (q : Ratio) : Ratio :=
  if q.num = 0 then ⟨0, 1⟩
  else
    let up := 52 + q.den.log2 + (if q.num <<< q.den.log2 < q.den <<< q.num.log2 then 1 else 0)
    let down := q.num.log2
    (⟨(q.scale (up - down) (down - up)).round, 1⟩ : Ratio).scale (down - up) (up - down)

/-- One number divided by another. -/
def div (q r : Ratio) : Ratio := ⟨q.num * r.den, q.den * r.num⟩

/-- A number in decimal notation with six places. -/
def sixPlaces (q : Ratio) : String :=
  let millionths := (⟨q.num * 1000000, q.den⟩ : Ratio).round
  let places := toString (millionths % 1000000)
  toString (millionths / 1000000) ++ "." ++ "".pushn '0' (6 - places.length) ++ places

end Ratio

end CallAtlas
