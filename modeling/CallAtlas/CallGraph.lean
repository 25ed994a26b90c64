import CallAtlas.Program.Types

/-!
# Call graphs

A call graph has the functions as nodes, in the order in which they were added, and one edge for
every call that was found, in the same sense. Edges are never merged: two calls between the same
functions are two edges. The walk visits every edge once, depth first, and an edge comes after the
edges below it unless a circle leads back.
-/

set_option autoImplicit false

namespace CallAtlas

/-- A call of one function in another. -/
structure CallEdge where
  caller : FuncId
  callee : FuncId
  line : Nat
deriving DecidableEq, Repr, Inhabited

/-- Functions and the calls between them, both in the order of insertion. -/
structure CallGraph where
  nodes : List FuncId := []
  edges : List CallEdge := []
deriving DecidableEq, Repr, Inhabited

namespace CallGraph

instance : EmptyCollection CallGraph := ⟨{}⟩

section Operations

variable (g : CallGraph)

/-- The function is a node. -/
def contains (func : FuncId) : Bool := g.nodes.contains func

/-- Adds a node unless it is there. -/
def addNode (func : FuncId) : CallGraph :=
  if g.contains func then g else { g with nodes := g.nodes ++ [func] }

/-- Adds an edge, and before it the nodes that it needs. -/
def addEdge (edge : CallEdge) : CallGraph :=
  let g := (g.addNode edge.caller).addNode edge.callee
  { g with edges := g.edges ++ [edge] }

/-- The place of a function among the nodes. -/
def indexOf (func : FuncId) : Nat := g.nodes.idxOf func

/-- The functions that a function calls, one for every edge. -/
def callees (func : FuncId) : List FuncId :=
  (g.edges.filter fun e => e.caller == func).map CallEdge.callee

end Operations

/-! ## The walk

A frame is a function with the callees that are still ahead. An edge to a function that was not seen
stays in front of its frame until that function is done, so it is visited when the walk comes back
to it. -/

/-- A function on the path of the walk and its callees from the current one on. -/
structure Frame where
  node : FuncId
  ahead : List FuncId
deriving DecidableEq, Repr, Inhabited

section Walk

variable {m : Type → Type} [Monad m] (g : CallGraph) (visitor : FuncId → FuncId → m Unit)

/-- Walks until the stack is empty, at most `fuel` steps, and gives back the functions seen. -/
def walkFrom : (fuel : Nat) → (seen : List FuncId) → List Frame → m (List FuncId)
  | 0, seen, _ => pure seen
  | _ + 1, seen, [] => pure seen
  | fuel + 1, seen, ⟨_, []⟩ :: rest => walkFrom fuel seen rest
  | fuel + 1, seen, ⟨node, callee :: ahead⟩ :: rest =>
    if seen.contains callee then do
      visitor node callee
      walkFrom fuel seen (⟨node, ahead⟩ :: rest)
    else
      walkFrom fuel (callee :: seen)
        (⟨callee, g.callees callee⟩ :: ⟨node, callee :: ahead⟩ :: rest)

/-- More steps than a walk can take: a node is entered and left once, an edge is visited once. -/
def walkFuel : Nat := 2 * g.nodes.length + g.edges.length + 1

/-- Walks from every node that was not seen, in order. -/
def walkRoots : (roots seen : List FuncId) → m (List FuncId)
  | [], seen => pure seen
  | root :: roots, seen =>
    if seen.contains root then walkRoots roots seen
    else do
      let seen ← g.walkFrom visitor g.walkFuel (root :: seen) [⟨root, g.callees root⟩]
      walkRoots roots seen

/-- Calls the visitor on every edge, depth first; it stops where the visitor fails. -/
def visit : m Unit := do
  let _ ← g.walkRoots visitor g.nodes []
  pure ()

end Walk

/-- The visitor that writes a call down. -/
def record (caller callee : FuncId) : StateM (List (FuncId × FuncId)) Unit :=
  modify (· ++ [(caller, callee)])

/-- The pairs of caller and callee in the order of the walk. -/
def walk (g : CallGraph) : List (FuncId × FuncId) := ((g.visit record).run []).2

end CallGraph

end CallAtlas
