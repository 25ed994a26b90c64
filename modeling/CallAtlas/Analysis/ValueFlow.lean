import CallAtlas.Analysis.Hierarchy

/-!
# Calls by the flow of values

Types and functions are followed through assignments, parameters and results. A call is then
resolved by the values that reach its receiver or its callee; where a value of unknown origin
arrives, the site calls all that the declarations allow.
-/

set_option autoImplicit false

namespace CallAtlas

/-- Slots with the atoms known to be in them, and arcs along which atoms flow. There is no arc from
a slot to itself and no arc twice. -/
structure FlowGraph where
  values : Table Slot (List Atom) := ∅
  arcs : List (Slot × Slot) := []
deriving Inhabited

namespace FlowGraph

/-- The atoms of `xs` and behind them the further ones of `ys`. -/
def union (xs ys : List Atom) : List Atom :=
  ys.foldl (fun acc y => if acc.contains y then acc else acc ++ [y]) xs

variable (g : FlowGraph)

/-- The atoms in a slot. -/
def atoms (slot : Slot) : List Atom := (g.values.get? slot).getD []

/-- Has the slot among its nodes. -/
def addSlot (slot : Slot) : FlowGraph := { g with values := g.values.insertNew slot [] }

/-- Adds an arc unless it is there or leads nowhere else. -/
def addArc (source sink : Slot) : FlowGraph :=
  if source == sink || g.arcs.contains (source, sink) then g
  else { g with arcs := g.arcs ++ [(source, sink)] }

/-- Puts atoms into a slot. -/
def addAtoms (slot : Slot) (found : List Atom) : FlowGraph :=
  { g with values := g.values.insert slot (union (g.atoms slot) found) }

/-- Lets values flow from an origin into a slot. -/
def connect (flow : Flow) : FlowGraph :=
  let g := g.addSlot flow.sink
  let g := flow.source.slots.foldl (fun g source => (g.addSlot source).addArc source flow.sink) g
  g.addAtoms flow.sink flow.source.atoms

/-- Where atoms go from a slot. -/
def successors (slot : Slot) : List Slot :=
  (g.arcs.filter fun arc => arc.1 == slot).map Prod.snd

/-! ## The least solution -/

/-- Sends atoms into a slot; if some are new there, the slot has to be looked at again. -/
def push (found : List Atom) (s : FlowGraph × List Slot) (slot : Slot) : FlowGraph × List Slot :=
  if found.all (s.1.atoms slot).contains then s
  else (s.1.addAtoms slot found, if s.2.contains slot then s.2 else s.2 ++ [slot])

/-- Looks at the slots of the queue from its front, at most `fuel` times. -/
def drain : (fuel : Nat) → FlowGraph → (queue : List Slot) → FlowGraph
  | 0, g, _ => g
  | _ + 1, g, [] => g
  | fuel + 1, g, slot :: queue =>
    let (g, queue) := (g.successors slot).foldl (push (g.atoms slot)) (g, queue)
    drain fuel g queue

/-- The slots that hold atoms. -/
def occupied : List Slot := (g.values.entries.filter fun e => !e.2.isEmpty).map Prod.fst

/-- More looks than a solution can take: a slot is looked at once at the start and once for every
atom that is new to it. -/
def solveFuel : Nat :=
  g.values.entries.length * (g.values.values.flatten.length + 1) + 1

/-- The atoms that reach every slot. -/
def solve : FlowGraph := drain g.solveFuel g g.occupied

/-- The atoms that an expression can have. -/
def valuesOf (origin : Origin) : List Atom :=
  origin.slots.foldl (fun acc slot => union acc (g.atoms slot)) (union [] origin.atoms)

end FlowGraph

namespace Program

variable (p : Program)

/-- The flows of a call: arguments into parameters, the receiver into the receiver, results back. -/
def callFlows (caller : FuncId) (index : Nat) (site : CallSite) (callee : FuncId) : List Flow :=
  match p.functions[callee]? with
  | none => []
  | some f =>
    let args := (site.args.take f.signature.params.length).zipIdx.map fun (arg, i) =>
      (⟨arg, .localVar callee (f.paramKey i)⟩ : Flow)
    let receiver := match site.recv, f.receiver with
      | some recv, some _ => [(⟨recv, .localVar callee f.receiverKey⟩ : Flow)]
      | _, _ => []
    let results := (List.range f.signature.results.length).map fun i =>
      (⟨.slot (.result callee i), .callResult caller index i⟩ : Flow)
    args ++ receiver ++ results

/-- All flows of a function: its own, and those of its calls as the declarations allow them. -/
def flowsOf (func : FuncId) (facts : Facts) : List Flow :=
  facts.flows ++ facts.sites.zipIdx.flatMap fun (site, index) =>
    (p.hierarchyTargets site).flatMap (p.callFlows func index site)

/-- The flow of values through the program. -/
def flowGraph : FlowGraph :=
  (p.facts.zipIdx.flatMap fun (facts, func) => p.flowsOf func facts).foldl FlowGraph.connect {}

/-- Numbers in increasing order, each once. -/
def ascending (ids : List FuncId) : List FuncId := (ids.mergeSort (· ≤ ·)).eraseDups

/-- The methods that an interface call reaches on the types among some atoms. -/
def methodsOn (iface : TypeId) (method : String) (atoms : List Atom) : List FuncId :=
  ascending (atoms.filterMap fun
    | .type ty => if p.decls.implements ty iface then p.decls.methodOf ty method else none
    | _ => none)

/-- The functions among some atoms. -/
def functionsIn (atoms : List Atom) : List FuncId :=
  ascending (atoms.filterMap fun
    | .func id => some id
    | _ => none)

/-- What a site calls by the values that reach it. -/
def flowTargets (solution : FlowGraph) (site : CallSite) : List FuncId :=
  match site.target with
  | .static callee => [callee]
  | .invoke iface method =>
    let values := (site.recv.map solution.valuesOf).getD []
    if values.contains .opaqueValue then p.invokeTargets iface method
    else p.methodsOn iface method values
  | .dynamic callee =>
    let values := solution.valuesOf callee
    if values.contains .opaqueValue then p.dynamicTargets site.args.length
    else functionsIn values

/-- The graph of the calls by the flow of values. -/
def valueFlowGraph : CallGraph := p.graphBy (p.flowTargets p.flowGraph.solve)

end Program

end CallAtlas
