import CallAtlas.CallGraph
import CallAtlas.EdgeFilter
import CallAtlas.Error
import CallAtlas.KeyGraph
import CallAtlas.Progress

/-!
# From calls to keys

The walk over a call graph keeps the calls that a filter accepts, turns them into a graph of keys
and sends every node and every edge on as soon as it is found. A node is sent when its key is seen
for the first time, so it comes before all its edges. The walk ends early if it is cancelled or if
nobody takes what it sends.
-/

set_option autoImplicit false

namespace CallAtlas

/-- The node of a function that has no edges yet. -/
def GraphNode.ofFunction (f : Function) : GraphNode :=
  { key := f.key, package := f.package.getD "", name := f.name }

/-- The edge between the keys of two functions. -/
def GraphEdge.ofCall (c : Function × Function) : GraphEdge :=
  { caller := c.1.key, callee := c.2.key }

/-- What is sent. -/
inductive Item where
  | node (node : GraphNode)
  | edge (edge : GraphEdge)
deriving DecidableEq, Repr, Inhabited

namespace Item

/-- The stream of an item. -/
def stream : Item → Stream
  | .node _ => .nodes
  | .edge _ => .edges

/-- The node that is sent. -/
def node? : Item → Option GraphNode
  | .node n => some n
  | .edge _ => none

/-- The edge that is sent. -/
def edge? : Item → Option GraphEdge
  | .node _ => none
  | .edge e => some e

end Item

/-- Where a stream ends: nowhere, or at a consumer that goes away after `limit` items. -/
inductive Outlet where
  | discard
  | consumer (limit : Option Nat)
deriving DecidableEq, Repr, Inhabited

/-- The outlets of both streams. -/
structure Outlets where
  nodes : Outlet := .consumer none
  edges : Outlet := .consumer none
deriving DecidableEq, Repr, Inhabited

namespace Outlets

/-- Everything is dropped. -/
def discard : Outlets := ⟨.discard, .discard⟩

/-- The outlet of a stream. -/
def of (outlets : Outlets) : Stream → Outlet
  | .nodes => outlets.nodes
  | .edges => outlets.edges

end Outlets

/-- How a walk is done: the functions, the filter, the name of the algorithm, whether it is
cancelled before it starts, and where its items go. -/
structure Materializer where
  program : Program
  filter : EdgeFilter
  label : String
  cancelled : Bool := false
  outlets : Outlets := {}

namespace Materializer

/-- What the walk leaves: the graph so far, the functions whose calls were visited, the progress,
the messages and the items sent. -/
structure State where
  graph : KeyGraph := ∅
  callers : List FuncId := []
  progress : Progress := {}
  messages : List String := []
  sent : List Item := []
deriving DecidableEq, Repr, Inhabited

/-- An action of the walk. What it did before it fails is kept. -/
abbrev Action := ExceptT Error (StateM State)

/-- Nodes between two messages. -/
def nodeInterval : Nat := 10

/-- Edges between two messages. -/
def edgeInterval : Nat := 20

/-- Adds a message. -/
def report (message : String) : Action Unit :=
  modify fun s => { s with messages := s.messages ++ [message] }

/-- Reports the size of the graph if `count` is a multiple of the interval. -/
def reportEvery (interval count : Nat) : Action Unit := do
  let g := (← get).graph
  if count % interval = 0 then
    report s!"Processed {g.nodes.length} nodes, {g.edges.length} edges"

/-- Counts a function whose calls are visited, once. -/
def recordCaller (func : FuncId) : Action Unit :=
  modify fun s =>
    if s.callers.contains func then s
    else { s with callers := func :: s.callers, progress := s.progress.record 1 }

variable (m : Materializer)

/-- The function with a number. -/
def function (id : FuncId) : Function := m.program.functions[id]?.getD default

/-- Stops if the walk is cancelled. -/
def checkCancelled : Action Unit := if m.cancelled then throw .cancelled else pure ()

/-- Sends an item. -/
def send (item : Item) : Action Unit := do
  match m.outlets.of item.stream with
  | .discard => pure ()
  | .consumer limit =>
    m.checkCancelled
    let before := ((← get).sent.filter fun i => i.stream == item.stream).length
    if limit.all (before < ·) then modify fun s => { s with sent := s.sent ++ [item] }
    else throw (.streamClosed item.stream)

/-- Has the node of a function in the graph; a new one is sent. -/
def ensureNode (f : Function) : Action Unit := do
  if ((← get).graph.node? f.key).isNone then
    let node := GraphNode.ofFunction f
    modify fun s => { s with graph := s.graph.addNode node }
    m.send (.node node)
    reportEvery nodeInterval (← get).graph.nodes.length

/-- Adds a call that is kept. -/
def addCall (caller callee : Function) : Action Unit := do
  m.ensureNode caller
  m.ensureNode callee
  let edge := GraphEdge.ofCall (caller, callee)
  modify fun s => { s with graph := s.graph.addEdge edge }
  m.send (.edge edge)
  reportEvery edgeInterval (← get).graph.edges.length

/-- Visits a call. -/
def visitCall (caller callee : FuncId) : Action Unit := do
  m.checkCancelled
  recordCaller caller
  if m.filter.accepts (m.function caller) (m.function callee) then
    m.addCall (m.function caller) (m.function callee)

/-- Walks over a call graph. -/
def walk (g : CallGraph) : Action KeyGraph := do
  report s!"Starting to build call graph, using algorithm: {m.label}"
  modify fun s => { s with progress := .start g.nodes.length }
  g.visit m.visitCall
  return (← get).graph

/-- The last message of a walk. -/
def lastMessage : Except Error KeyGraph → String
  | .ok graph =>
    let nodes := graph.nodes.length
    let edges := graph.edges.length
    s!"Call graph build completed, processed {nodes} nodes, {edges} edges"
  | .error error => s!"Call graph build error: {error.message}"

/-- What is left after a walk, with its last message. -/
def conclude (outcome : Except Error KeyGraph × State) : Except Error KeyGraph × State :=
  (outcome.1, { outcome.2 with messages := outcome.2.messages ++ [lastMessage outcome.1] })

/-- The result of a walk with its last message, and what it leaves. -/
def run (g : CallGraph) : Except Error KeyGraph × State := conclude ((m.walk g).run.run {})

end Materializer

end CallAtlas
