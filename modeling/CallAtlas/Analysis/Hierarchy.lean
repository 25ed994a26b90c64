import CallAtlas.CallGraph
import CallAtlas.Program.Basic

/-!
# Calls by declaration

Two analyses that look at a call site alone. The static one knows only calls of named functions. The
hierarchy one lets an interface call reach every implementation and a call of a function value reach
every function whose address is taken and that accepts the number of arguments. Both have all
functions of the program as nodes.
-/

set_option autoImplicit false

namespace CallAtlas.Program

variable (p : Program)

/-- The function accepts `count` arguments. -/
def acceptsArgs (count : Nat) (func : FuncId) : Bool :=
  match p.functions[func]? with
  | some f => f.signature.accepts count
  | none => false

/-- What an interface call of a method can reach in the whole program. -/
def invokeTargets (iface : TypeId) (method : String) : List FuncId :=
  p.decls.implementations iface method

/-- What a call of a function value with `count` arguments can reach in the whole program. -/
def dynamicTargets (count : Nat) : List FuncId := p.addressTaken.filter (p.acceptsArgs count)

/-- What a site calls by name. -/
def namedTargets (site : CallSite) : List FuncId :=
  match site.target with
  | .static callee => [callee]
  | _ => []

/-- What a site can reach in the whole program. -/
def hierarchyTargets (site : CallSite) : List FuncId :=
  match site.target with
  | .static callee => [callee]
  | .invoke iface method => p.invokeTargets iface method
  | .dynamic _ => p.dynamicTargets site.args.length

/-- The edges of a site. -/
def siteEdges (targets : CallSite → List FuncId) (caller : FuncId) (site : CallSite) :
    List CallEdge :=
  (targets site).map fun callee => { caller, callee, line := site.line }

/-- The edges of all sites, by function and site. -/
def edgesBy (targets : CallSite → List FuncId) : List CallEdge :=
  p.facts.zipIdx.flatMap fun (facts, caller) =>
    facts.sites.flatMap (siteEdges targets caller)

/-- The graph of all functions without any calls; the number of a function is its place. -/
def emptyGraph : CallGraph := { nodes := List.range p.functions.length }

/-- The graph on all functions in which every site calls its targets. -/
def graphBy (targets : CallSite → List FuncId) : CallGraph :=
  (p.edgesBy targets).foldl CallGraph.addEdge p.emptyGraph

/-- The graph of the calls by name. -/
def staticGraph : CallGraph := p.graphBy namedTargets

/-- The graph of all calls that the declarations allow. -/
def hierarchyGraph : CallGraph := p.graphBy p.hierarchyTargets

end CallAtlas.Program
