import CallAtlas.Rounding

/-!
# Progress

How many of the functions of a call graph had their calls visited.
-/

set_option autoImplicit false

namespace CallAtlas

/-- Functions visited, of all functions. -/
structure Progress where
  visited : Nat := 0
  total : Nat := 0
deriving DecidableEq, Repr, Inhabited

namespace Progress

/-- Nothing is visited of `total` functions. -/
def start (total : Nat) : Progress := { total }

/-- Some more functions are visited. -/
def record (p : Progress) (count : Nat) : Progress := { p with visited := p.visited + count }

/-- The part that is visited, at most one. Both counts are rounded to 53 bits first, and so is their
quotient. -/
def fraction (p : Progress) : Ratio :=
  if p.total = 0 then ⟨0, 1⟩
  else
    let q := ((Ratio.mk p.visited 1).roundBits.div (Ratio.mk p.total 1).roundBits).roundBits
    if q.den < q.num then ⟨1, 1⟩ else q

end Progress

end CallAtlas
