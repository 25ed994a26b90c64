import CallAtlas.Materialize
import CallAtlas.Program.Load
import CallAtlas.Settings.Basic
import CallAtlas.Store.Basic

/-!
# From files to a store

An analysis finds the module, loads the program and builds its call graph. The walk over the graph
then sends nodes and edges to two writers, which save what they receive. A save that is refused is
counted and the writer goes on; a save that crashes ends its writer. Neither order of the two
writers shows in what is counted and reported, so here the nodes are written first.
-/

set_option autoImplicit false

namespace CallAtlas

/-! ## Writers -/

/-- How a save ends. -/
inductive Attempt where
  | saved
  | refused
  | crashed
deriving DecidableEq, Repr, Inhabited

/-- What a writer has done. -/
structure Tally where
  saved : Nat := 0
  failed : Nat := 0
  messages : List String := []
deriving DecidableEq, Repr, Inhabited

namespace Tally

variable (t : Tally)

/-- One more item is saved; every multiple of the interval is reported. -/
def addSaved (label : String) (interval : Nat) : Tally :=
  let saved := t.saved + 1
  { t with
    saved
    messages := if saved % interval = 0 then t.messages ++ [s!"Saved {saved} {label}"]
      else t.messages }

/-- One more item is refused. -/
def addFailed : Tally := { t with failed := t.failed + 1 }

end Tally

section Drain

variable {m : Type → Type} [Monad m] {α : Type}

/-- Saves items in order; `none` if a save crashes. -/
def drain (label : String) (interval : Nat) (save : α → m Attempt) :
    List α → Tally → m (Option Tally)
  | [], tally => pure (some tally)
  | item :: rest, tally => do
    match ← save item with
    | .saved => drain label interval save rest (tally.addSaved label interval)
    | .refused => drain label interval save rest tally.addFailed
    | .crashed => pure none

end Drain

/-- What both writers have done. -/
structure Stats where
  nodesSaved : Nat := 0
  edgesSaved : Nat := 0
  nodeErrors : Nat := 0
  edgeErrors : Nat := 0
  cancelled : Bool := false
deriving DecidableEq, Repr, Inhabited

/-- Messages: those of the analysis, and those of each writer. -/
structure Messages where
  main : List String := []
  nodes : List String := []
  edges : List String := []
deriving DecidableEq, Repr, Inhabited

/-- How items are saved. -/
structure Saver (σ : Type) where
  node : GraphNode → StateM σ Attempt
  edge : GraphEdge → StateM σ Attempt

namespace Saver

/-- The message when the writers start. -/
def greeting : String := "Starting to save data to database..."

/-- Nodes between two messages. -/
def nodeInterval : Nat := 10

/-- Edges between two messages. -/
def edgeInterval : Nat := 20

/-- Keeps the new store of a save that is not refused. -/
def attempt {ε : Type} (save : Store → Except ε Store) : StateM Store Attempt := fun store =>
  match save store with
  | .ok store => (.saved, store)
  | .error _ => (.refused, store)

/-- Saves into a store. -/
def store : Saver Store where
  node n := attempt (·.saveNode n)
  edge e := attempt (·.saveEdge e)

/-- Writes nodes and edges. A writer that crashed is an error, the one of the nodes first. -/
def write {σ : Type} (saver : Saver σ) (nodes : List GraphNode) (edges : List GraphEdge) :
    StateM σ (Except Error (Stats × Messages)) := do
  let n ← drain "nodes" nodeInterval saver.node nodes {}
  let e ← drain "edges" edgeInterval saver.edge edges {}
  match n, e with
  | none, _ => return .error (.writerCrashed .nodes)
  | some _, none => return .error (.writerCrashed .edges)
  | some n, some e =>
    return .ok (
      { nodesSaved := n.saved, edgesSaved := e.saved, nodeErrors :=
        n.failed, edgeErrors := e.failed },
      { main := [greeting], nodes := n.messages, edges := e.messages })

/-- Writers that are cancelled before anything is sent. -/
def writeCancelled : Stats × Messages := ({ cancelled := true }, { main := [greeting] })

end Saver

/-! ## Analyses -/

/-- A program with its call graph and the filter for its calls. -/
structure Analysis where
  settings : Settings
  module : Module
  program : Program
  graph : CallGraph
  filter : EdgeFilter

namespace Analysis

/-- The call graph of a program that is loaded. -/
def ofProgram (settings : Settings) (module : Module) (program : Program) :
    Except Error Analysis := do
  let graph ← settings.algorithm.graph program
  return { settings, module, program, graph, filter := ⟨module.path, settings.ignore⟩ }

/-- The walk over the call graph. -/
def materialize (a : Analysis) (outlets : Outlets) : Except Error KeyGraph × Materializer.State :=
  Materializer.run
    { program := a.program, filter := a.filter, label := a.settings.algorithm.name, outlets }
    a.graph

end Analysis

/-- Loads the program under a directory. -/
def Disk.load (d : Disk) (root : String) (platform : Build.Platform := .host) :
    Except Error (Module × Program) := do
  let module ← d.module root
  return (module, ← d.loadProgram platform module root)

/-- Loads a program and builds its call graph. -/
def Disk.prepare (d : Disk) (settings : Settings) (cancelled : Bool)
    (platform : Build.Platform := .host) : Except Error Analysis := do
  let (module, program) ← d.load settings.root platform
  if cancelled then throw .cancelled
  Analysis.ofProgram settings module program

/-- What a run that saves its graph leaves. -/
structure Outcome where
  result : Except Error (KeyGraph × Stats)
  messages : Messages := {}
  progress : Progress := {}
  store : Store

/-- Walks over a call graph and saves what the walk sends. -/
def Analysis.persist (a : Analysis) (store : Store) : Outcome :=
  let (graph, s) := a.materialize {}
  let (written, store) :=
    (Saver.store.write (s.sent.filterMap Item.node?) (s.sent.filterMap Item.edge?)).run store.init
  let main := Saver.greeting :: s.messages
  match written, graph with
  | .error error, _ =>
    { result := .error error, messages := { main }, progress := s.progress, store }
  | .ok (_, messages), .error error =>
    { result := .error error, messages := { messages with main }, progress := s.progress, store }
  | .ok (stats, messages), .ok graph =>
    { result := .ok (graph, stats)
      messages := { messages with main := main ++ ["Data saving completed"] }
      progress := s.progress, store }

/-- Analyses a directory and saves the graph. -/
def Disk.analyseInto (d : Disk) (settings : Settings) (cancelled : Bool) (store : Store)
    (platform : Build.Platform := .host) : Outcome :=
  match d.prepare settings cancelled platform with
  | .error error => { result := .error error, store }
  | .ok analysis => analysis.persist store

end CallAtlas
