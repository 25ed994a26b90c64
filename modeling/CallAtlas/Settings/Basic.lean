import CallAtlas.Analysis.Algorithm
import CallAtlas.Text.Basic
import CallAtlas.Text.Blank

/-!
# Settings of an analysis

What is analysed, by which algorithm, which keys are left out, and how many items wait between the
analysis and the store.
-/

set_option autoImplicit false

namespace CallAtlas

/-- The settings of an analysis. Without a capacity any number of items can wait. -/
structure Settings where
  root : String
  algorithm : Algorithm
  ignore : List String := []
  capacity : Option Nat := some 100
deriving DecidableEq, Repr, Inhabited

namespace Settings

/-- The entries of a list that is separated by commas, trimmed and without empty ones. -/
def ignoreList (text : String) : List String :=
  ((Text.split ',' text).map Text.trim).filter fun entry => !entry.isEmpty

/-- The settings that a directory, the name of an algorithm and a list of prefixes select. -/
def ofSelectors (root algorithm ignore : String) : Except Error Settings := do
  return { root, algorithm := ← Algorithm.ofName algorithm, ignore := ignoreList ignore }

/-- Settings with another capacity; zero means none. -/
def withCapacity (s : Settings) (capacity : Option Nat) : Settings :=
  { s with capacity := capacity.filter (0 < ·) }

end Settings

end CallAtlas
