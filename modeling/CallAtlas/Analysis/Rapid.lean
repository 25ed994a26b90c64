import CallAtlas.Analysis.Hierarchy

/-!
# Calls of reachable code

Starting from the main functions, a function is reached when reached code calls it. An interface
call reaches the methods of the types that reached code allocates, and a call of a function value
the functions whose address reached code takes. Sites are therefore kept: a type or an address that
is found later is linked to all sites before it, and a site that is found later to all types and
addresses before it.
-/

set_option autoImplicit false

namespace CallAtlas.Rapid

/-- An interface call of reached code, with the methods it is linked to. -/
structure OpenInvoke where
  caller : FuncId
  line : Nat
  iface : TypeId
  method : String
  linked : List FuncId
deriving DecidableEq, Repr, Inhabited

/-- A call of a function value in reached code. -/
structure OpenDynamic where
  caller : FuncId
  line : Nat
  args : Nat
deriving DecidableEq, Repr, Inhabited

/-- What is known so far. The nodes of the graph are the functions reached; those in the queue are
still to be visited. Types, addresses and sites stand in the order in which they were found. -/
structure State where
  graph : CallGraph := ∅
  queue : List FuncId := []
  allocated : List TypeId := []
  taken : List FuncId := []
  invokes : List OpenInvoke := []
  dynamics : List OpenDynamic := []
deriving Inhabited

namespace State

variable (s : State)

/-- The function is reached. -/
def reach (func : FuncId) : State :=
  if s.graph.contains func then s
  else { s with graph := s.graph.addNode func, queue := s.queue ++ [func] }

/-- A call is found. -/
def call (edge : CallEdge) : State :=
  let s := s.reach edge.callee
  { s with graph := s.graph.addEdge edge }

end State

section Steps

variable (p : Program)

/-- The method that an interface call reaches on a type. -/
def dispatch (iface : TypeId) (method : String) (ty : TypeId) : Option FuncId :=
  if p.decls.implements ty iface then p.decls.methodOf ty method else none

/-- The site with one more type: the method that is new to it. -/
def OpenInvoke.link (ty : TypeId) (site : OpenInvoke) : OpenInvoke × Option CallEdge :=
  match dispatch p site.iface site.method ty with
  | none => (site, none)
  | some callee =>
    if site.linked.contains callee then (site, none)
    else ({ site with linked := site.linked ++ [callee] }, some ⟨site.caller, callee, site.line⟩)

/-- A type is allocated. -/
def allocate (s : State) (ty : TypeId) : State :=
  if s.allocated.contains ty then s
  else
    let linked := s.invokes.map (OpenInvoke.link p ty)
    let s := { s with allocated := s.allocated ++ [ty], invokes := linked.map Prod.fst }
    (linked.filterMap Prod.snd).foldl State.call s

/-- The address of a function is taken. -/
def take (s : State) (func : FuncId) : State :=
  if s.taken.contains func then s
  else
    let edges := (s.dynamics.filter fun site => p.acceptsArgs site.args func).map fun site =>
      (⟨site.caller, func, site.line⟩ : CallEdge)
    edges.foldl State.call { s with taken := s.taken ++ [func] }

/-- A call site is found in a function. -/
def addSite (caller : FuncId) (s : State) (site : CallSite) : State :=
  match site.target with
  | .static callee => s.call ⟨caller, callee, site.line⟩
  | .invoke iface method =>
    let linked := (s.allocated.filterMap (dispatch p iface method)).eraseDups
    let s := (linked.map fun callee => (⟨caller, callee, site.line⟩ : CallEdge)).foldl State.call s
    { s with invokes := s.invokes ++ [⟨caller, site.line, iface, method, linked⟩] }
  | .dynamic _ =>
    let args := site.args.length
    let callees := s.taken.filter (p.acceptsArgs args)
    let s := (callees.map fun callee => (⟨caller, callee, site.line⟩ : CallEdge)).foldl State.call s
    { s with dynamics := s.dynamics ++ [⟨caller, site.line, args⟩] }

/-- A reached function is visited: its types, its addresses, then its sites. -/
def visit (s : State) (func : FuncId) : State :=
  let facts := p.factsOf func
  let s := facts.allocations.foldl (allocate p) s
  let s := facts.addressTaken.foldl (take p) s
  facts.sites.foldl (addSite p func) s

/-- Visits the queue from its front, at most `fuel` functions. -/
def run : (fuel : Nat) → State → State
  | 0, s => s
  | fuel + 1, s =>
    match s.queue with
    | [] => s
    | func :: queue => run fuel (visit p { s with queue } func)

end Steps

/-- The state before the first visit. -/
def startAt (roots : List FuncId) : State := roots.foldl State.reach {}

end CallAtlas.Rapid

namespace CallAtlas.Program

/-- The graph of the code that the main functions reach, if there is one. A function is visited at
most once, so there are at most as many visits as functions. -/
def rapidGraph? (p : Program) : Option CallGraph :=
  match p.mainFunctions with
  | [] => none
  | mains => some (Rapid.run p p.functions.length (Rapid.startAt mains)).graph

end CallAtlas.Program
