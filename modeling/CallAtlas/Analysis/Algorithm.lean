import CallAtlas.Analysis.Rapid
import CallAtlas.Analysis.ValueFlow
import CallAtlas.Error

/-!
# Algorithms

The four ways to build a call graph, from the fewest calls to the most exact ones, and the names by
which they are selected.
-/

set_option autoImplicit false

namespace CallAtlas

/-- How a call graph is built. -/
inductive Algorithm where
  | static
  | hierarchy
  | rapid
  | valueFlow
deriving DecidableEq, Repr, Inhabited

namespace Algorithm

/-- All algorithms. -/
def all : List Algorithm := [.static, .hierarchy, .rapid, .valueFlow]

/-- The name of an algorithm. -/
def name : Algorithm → String
  | .static => "static"
  | .hierarchy => "cha"
  | .rapid => "rta"
  | .valueFlow => "vta"

/-- The algorithm with a name. -/
def ofName (name : String) : Except Error Algorithm :=
  match all.find? fun a => a.name == name with
  | some a => .ok a
  | none => .error (.unsupportedAlgorithm name)

/-- The call graph of a program. -/
def build (a : Algorithm) (p : Program) : Except Error CallGraph :=
  match a with
  | .static => .ok p.staticGraph
  | .hierarchy => .ok p.hierarchyGraph
  | .rapid => p.rapidGraph?.elim (.error .noMainPackage) .ok
  | .valueFlow => .ok p.valueFlowGraph

/-- The call graph of a program, which must not be empty. -/
def graph (a : Algorithm) (p : Program) : Except Error CallGraph := do
  let g ← a.build p
  if g.nodes.isEmpty then .error (.emptyCallGraph a.name) else .ok g

end Algorithm

end CallAtlas
