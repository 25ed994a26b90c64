/-!
# Tables

A table maps keys to values and keeps the order in which keys were first inserted. It is a list of
pairs, so every look-up is an induction and concrete tables can be evaluated anywhere.
-/

set_option autoImplicit false

namespace CallAtlas

/-- A map that remembers the order of its keys. -/
structure Table (κ α : Type) where
  entries : List (κ × α) := []
deriving Repr

namespace Table

variable {κ α : Type}

instance : Inhabited (Table κ α) := ⟨⟨[]⟩⟩
instance : EmptyCollection (Table κ α) := ⟨⟨[]⟩⟩

/-- Puts `v` in the place of `k`, or behind all others if `k` is new. -/
def put [BEq κ] (k : κ) (v : α) : List (κ × α) → List (κ × α)
  | [] => [(k, v)]
  | (k', v') :: rest => if k' == k then (k', v) :: rest else (k', v') :: put k v rest

/-- The value of `k`. -/
def get? [BEq κ] (t : Table κ α) (k : κ) : Option α := t.entries.lookup k

/-- `k` has a value. -/
def contains [BEq κ] (t : Table κ α) (k : κ) : Bool := (t.get? k).isSome

/-- Gives `k` a value in place of the one it had. -/
def insert [BEq κ] (t : Table κ α) (k : κ) (v : α) : Table κ α := ⟨put k v t.entries⟩

/-- Gives `k` a value unless it has one. -/
def insertNew [BEq κ] (t : Table κ α) (k : κ) (v : α) : Table κ α :=
  if t.contains k then t else ⟨t.entries ++ [(k, v)]⟩

/-- The keys in the order of their first insertion. -/
def keys (t : Table κ α) : List κ := t.entries.map Prod.fst

/-- The values in the order of their keys. -/
def values (t : Table κ α) : List α := t.entries.map Prod.snd

/-- The table in which later pairs replace earlier ones of the same key. -/
def ofList [BEq κ] (pairs : List (κ × α)) : Table κ α :=
  pairs.foldl (fun t p => t.insert p.1 p.2) ∅

end Table

end CallAtlas
