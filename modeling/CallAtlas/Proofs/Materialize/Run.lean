import CallAtlas.Proofs.Materialize.Calls
import CallAtlas.Proofs.Walk.Visit

/-!
# A walk that is not stopped

A walk ends early if it is cancelled or if an item is not taken. Where neither happens it comes to
its end, and its graph is that of the calls kept, whoever takes the items. For a consumer that goes
away after some items to take them all it is enough that the finished graph has no more: what has
been sent is at any time what the graph has (`Told`), and the graph only grows.
-/

set_option autoImplicit false

namespace CallAtlas

/-- That many items are taken: none is looked at, or the consumer stays for them. -/
def Outlet.takes (count : Nat) : Outlet → Bool
  | .discard => true
  | .consumer limit => limit.all (count ≤ ·)

/-- What a graph has on a stream. -/
def KeyGraph.items (g : KeyGraph) : Stream → List Item
  | .nodes => g.nodes.map fun n => .node n.bare
  | .edges => g.edges.map .edge

theorem KeyGraph.items_addNode (g : KeyGraph) (node : GraphNode) (hbare : node.bare = node)
    (stream : Stream) : (g.addNode node).items stream =
      g.items stream ++ if (Item.node node).stream = stream then [.node node] else [] := by
  cases stream with
  | nodes => simp [items, addNode, Item.stream, hbare]
  | edges => simp [items, addNode, Item.stream]

theorem KeyGraph.items_addEdge (g : KeyGraph) (edge : GraphEdge) (stream : Stream) :
    (g.addEdge edge).items stream =
      g.items stream ++ if (Item.edge edge).stream = stream then [.edge edge] else [] := by
  cases stream with
  | nodes => simp [items, addEdge, Item.stream, linked, GraphNode.bare, Function.comp_def]
  | edges => simp [items, addEdge, Item.stream]

/-- All nodes and all edges of a graph are taken. -/
def Outlets.take (outlets : Outlets) (g : KeyGraph) : Bool :=
  outlets.nodes.takes g.nodes.length && outlets.edges.takes g.edges.length

theorem Outlet.takes_mono {count count' : Nat} (hle : count ≤ count') {o : Outlet}
    (h : o.takes count' = true) : o.takes count = true := by
  cases o with
  | discard => rfl
  | consumer limit =>
    cases limit with
    | none => rfl
    | some limit =>
      simp only [takes, Option.all_some, decide_eq_true_eq] at h ⊢
      omega

theorem Outlets.takes_items (outlets : Outlets) {g : KeyGraph} (h : outlets.take g = true)
    (stream : Stream) : (outlets.of stream).takes (g.items stream).length = true := by
  obtain ⟨hnodes, hedges⟩ := Bool.and_eq_true_iff.mp h
  cases stream with
  | nodes => simpa [of, KeyGraph.items] using hnodes
  | edges => simpa [of, KeyGraph.items] using hedges

theorem Outlets.take_mono (outlets : Outlets) {g g' : KeyGraph} (hle : g.Within g')
    (h : outlets.take g' = true) : outlets.take g = true := by
  obtain ⟨hnodes, hedges⟩ := Bool.and_eq_true_iff.mp h
  exact Bool.and_eq_true_iff.mpr
    ⟨Outlet.takes_mono hle.1 hnodes, Outlet.takes_mono hle.2 hedges⟩

namespace Materializer

/-! ## Actions one after another -/

theorem bind_run_ok {α β : Type} {x : Action α} {f : α → Action β} {s s'' : State} {b : β}
    (h : (x >>= f).run.run s = (.ok b, s'')) :
    ∃ a s', x.run.run s = (.ok a, s') ∧ (f a).run.run s' = (.ok b, s'') := by
  cases hx : x.run.run s with
  | mk r s' =>
    cases r with
    | ok a => exact ⟨a, s', rfl, (run_bind_of_ok hx).symm.trans h⟩
    | error e => cases (run_bind_of_error hx).symm.trans h

theorem get_run (s : State) : (get : Action State).run.run s = (.ok s, s) := rfl

theorem modify_run (f : State → State) (s : State) :
    (modify f : Action Unit).run.run s = (.ok (), f s) := rfl

variable {m : Materializer} {s : State}

theorem checkCancelled_run (hcancel : m.cancelled = false) :
    m.checkCancelled.run.run s = (.ok (), s) := by
  rw [checkCancelled, hcancel]
  rfl

theorem reportEvery_run (interval count : Nat) (s : State) :
    ∃ messages, (reportEvery interval count).run.run s = (.ok (), { s with messages }) := by
  unfold reportEvery
  rw [run_bind_of_ok (get_run s)]
  split
  · exact ⟨_, rfl⟩
  · exact ⟨s.messages, rfl⟩

theorem recordCaller_run (func : FuncId) (s : State) :
    ∃ callers progress, (recordCaller func).run.run s = (.ok (), { s with callers, progress }) := by
  unfold recordCaller
  rw [modify_run]
  split
  · exact ⟨s.callers, s.progress, rfl⟩
  · exact ⟨_, _, rfl⟩

/-! ## Items that are taken -/

/-- The state after an item was taken. -/
def delivered (m : Materializer) (item : Item) (s : State) : State :=
  match m.outlets.of item.stream with
  | .discard => s
  | .consumer _ => { s with sent := s.sent ++ [item] }

theorem send_run (hcancel : m.cancelled = false) {item : Item}
    (htakes : (m.outlets.of item.stream).takes
      ((s.sent.filter fun i => i.stream == item.stream).length + 1) = true) :
    (m.send item).run.run s = (.ok (), m.delivered item s) := by
  unfold send delivered
  cases ho : m.outlets.of item.stream with
  | discard => rfl
  | consumer limit =>
    rw [ho] at htakes
    have hroom : limit.all ((s.sent.filter fun i => i.stream == item.stream).length < ·) = true :=
      htakes
    simp only
    rw [run_bind_of_ok (checkCancelled_run hcancel), run_bind_of_ok (get_run s),
      if_pos hroom, modify_run]

/-- What was sent is what the graph has, on each stream that anyone looks at. -/
def Told (m : Materializer) (s : State) : Prop :=
  ∀ stream, m.outlets.of stream ≠ .discard →
    (s.sent.filter fun i => i.stream == stream) = s.graph.items stream

theorem told_nil (m : Materializer) : Told m {} := by
  intro stream _
  cases stream with
  | nodes => rfl
  | edges => rfl

/-- The graph gets one more item, and it is sent. -/
theorem Told.send (h : Told m s) (hcancel : m.cancelled = false) {g : KeyGraph} {item : Item}
    (hnew : ∀ stream, g.items stream =
      s.graph.items stream ++ if item.stream = stream then [item] else [])
    (htake : m.outlets.take g = true) :
    ∃ s', (m.send item).run.run { s with graph := g } = (.ok (), s') ∧ s'.graph = g ∧
      Told m s' := by
  have htakes := m.outlets.takes_items htake item.stream
  cases ho : m.outlets.of item.stream with
  | discard =>
    -- nothing is sent, and nothing is claimed about the stream of the item
    refine ⟨{ s with graph := g }, ?_, rfl, fun stream hstream => ?_⟩
    · rw [send_run hcancel (by rw [ho]; rfl), delivered, ho]
    · have hne : item.stream ≠ stream := fun heq => hstream (heq ▸ ho)
      rw [hnew stream, if_neg hne, List.append_nil]
      exact h stream hstream
  | consumer limit =>
    have hsent := h item.stream (by rw [ho]; exact Outlet.noConfusion)
    refine ⟨{ s with graph := g, sent := s.sent ++ [item] }, ?_, rfl, fun stream hstream => ?_⟩
    · rw [hnew item.stream, if_pos rfl, ← hsent, List.length_append] at htakes
      rw [send_run (s := { s with graph := g }) hcancel htakes, delivered, ho]
    · rw [List.filter_append, h stream hstream, hnew stream]
      by_cases heq : item.stream = stream
      · rw [if_pos heq, List.filter_cons_of_pos (by simpa using heq), List.filter_nil]
      · rw [if_neg heq, List.filter_cons_of_neg (by simpa using heq), List.filter_nil]

/-! ## Calls that are visited -/

theorem ensureNode_run (h : Told m s) (hcancel : m.cancelled = false) {f : Function}
    (htake : m.outlets.take (s.graph.ensure f) = true) :
    ∃ s', (m.ensureNode f).run.run s = (.ok (), s') ∧ s'.graph = s.graph.ensure f ∧ Told m s' := by
  unfold ensureNode
  rw [run_bind_of_ok (get_run s)]
  unfold KeyGraph.ensure at htake ⊢
  split at htake
  · rename_i hnone
    obtain ⟨s', hsend, hgraph, htold⟩ := h.send hcancel
      (KeyGraph.items_addNode s.graph (.ofFunction f) rfl) htake
    obtain ⟨messages, hreport⟩ := reportEvery_run nodeInterval s'.graph.nodes.length s'
    refine ⟨{ s' with messages }, ?_, ?_, htold⟩
    · rw [if_pos hnone, run_bind_of_ok (modify_run _ s)]
      exact (run_bind_of_ok hsend).trans ((run_bind_of_ok (get_run s')).trans hreport)
    · rw [if_pos hnone]
      exact hgraph
  · rename_i hsome
    rw [if_neg hsome, if_neg hsome]
    exact ⟨s, rfl, rfl, h⟩

theorem addCall_run (h : Told m s) (hcancel : m.cancelled = false) {caller callee : Function}
    (htake : m.outlets.take (s.graph.addCall (caller, callee)) = true) :
    ∃ s', (m.addCall caller callee).run.run s = (.ok (), s') ∧
      s'.graph = s.graph.addCall (caller, callee) ∧ Told m s' := by
  have hedge := m.outlets.take_mono (KeyGraph.within_addEdge _ _) htake
  obtain ⟨s₁, hrun₁, hgraph₁, htold₁⟩ := ensureNode_run h hcancel
    (m.outlets.take_mono (KeyGraph.within_ensure _ callee) hedge)
  obtain ⟨s₂, hrun₂, hgraph₂, htold₂⟩ := ensureNode_run htold₁ hcancel (hgraph₁ ▸ hedge)
  rw [hgraph₁] at hgraph₂
  -- only now is the edge added, so its ends are sent before it
  obtain ⟨s₃, hrun₃, hgraph₃, htold₃⟩ := htold₂.send hcancel
    (KeyGraph.items_addEdge s₂.graph (.ofCall (caller, callee))) (hgraph₂ ▸ htake)
  obtain ⟨messages, hreport⟩ := reportEvery_run edgeInterval s₃.graph.edges.length s₃
  refine ⟨{ s₃ with messages }, ?_, ?_, htold₃⟩
  · rw [addCall, run_bind_of_ok hrun₁, run_bind_of_ok hrun₂, run_bind_of_ok (modify_run _ s₂)]
    exact (run_bind_of_ok hrun₃).trans ((run_bind_of_ok (get_run s₃)).trans hreport)
  · rw [hgraph₂] at hgraph₃
    exact hgraph₃

/-- The calls that the filter accepts, as pairs of functions. -/
def kept (m : Materializer) (calls : List (FuncId × FuncId)) : List (Function × Function) :=
  (calls.filter fun e => m.filter.accepts (m.function e.1) (m.function e.2)).map fun e =>
    (m.function e.1, m.function e.2)

theorem visitCall_run (h : Told m s) (hcancel : m.cancelled = false) {e : FuncId × FuncId}
    (htake : m.outlets.take ((m.kept [e]).foldl KeyGraph.addCall s.graph) = true) :
    ∃ s', (m.visitCall e.1 e.2).run.run s = (.ok (), s') ∧
      s'.graph = (m.kept [e]).foldl KeyGraph.addCall s.graph ∧ Told m s' := by
  obtain ⟨callers, progress, hrecord⟩ := recordCaller_run e.1 s
  unfold visitCall
  rw [run_bind_of_ok (checkCancelled_run hcancel), run_bind_of_ok hrecord]
  by_cases haccepts : m.filter.accepts (m.function e.1) (m.function e.2) = true
  · have hkept : m.kept [e] = [(m.function e.1, m.function e.2)] := by
      simp [kept, haccepts]
    rw [hkept] at htake ⊢
    rw [if_pos haccepts]
    exact addCall_run (s := { s with callers, progress }) h hcancel htake
  · have hkept : m.kept [e] = [] := by
      simp [kept, haccepts]
    rw [hkept, if_neg haccepts]
    exact ⟨{ s with callers, progress }, rfl, rfl, h⟩

theorem kept_cons (m : Materializer) (e : FuncId × FuncId) (calls : List (FuncId × FuncId)) :
    m.kept (e :: calls) = m.kept [e] ++ m.kept calls := by
  rw [kept, ← List.singleton_append, List.filter_append, List.map_append]
  rfl

theorem forM_visitCall_run (hcancel : m.cancelled = false) (calls : List (FuncId × FuncId))
    (h : Told m s) (htake : m.outlets.take ((m.kept calls).foldl KeyGraph.addCall s.graph) = true) :
    ∃ s', (forM calls fun e => m.visitCall e.1 e.2).run.run s = (.ok (), s') ∧
      s'.graph = (m.kept calls).foldl KeyGraph.addCall s.graph ∧ Told m s' := by
  induction calls generalizing s with
  | nil => exact ⟨s, rfl, rfl, h⟩
  | cons e calls ih =>
    rw [kept_cons, List.foldl_append] at htake ⊢
    obtain ⟨s₁, hrun₁, hgraph₁, htold₁⟩ := visitCall_run h hcancel
      (m.outlets.take_mono (KeyGraph.within_foldl_addCall _ _) htake)
    rw [← hgraph₁] at htake ⊢
    obtain ⟨s₂, hrun₂, hgraph₂, htold₂⟩ := ih htold₁ htake
    exact ⟨s₂, by rw [List.forM_cons, run_bind_of_ok hrun₁, hrun₂], hgraph₂, htold₂⟩

/-! ## Actions that succeeded

Whoever takes the items and whether or not the walk is cancelled later on, an action that succeeded
has done to the graph what it is for. -/

variable {s' : State}

theorem checkCancelled_eq (h : m.checkCancelled.run.run s = (.ok (), s')) : s' = s := by
  unfold checkCancelled at h
  split at h
  · cases h
  · cases h
    rfl

theorem send_graph {item : Item} (h : (m.send item).run.run s = (.ok (), s')) :
    s'.graph = s.graph := by
  unfold send at h
  split at h
  · cases h
    rfl
  · obtain ⟨_, s₁, hcheck, hrest⟩ := bind_run_ok h
    obtain rfl := checkCancelled_eq hcheck
    rw [run_bind_of_ok (get_run s₁)] at hrest
    dsimp only at hrest
    split at hrest
    · cases hrest
      rfl
    · cases hrest

theorem ensureNode_graph {f : Function} (h : (m.ensureNode f).run.run s = (.ok (), s')) :
    s'.graph = s.graph.ensure f := by
  unfold ensureNode at h
  rw [run_bind_of_ok (get_run s)] at h
  unfold KeyGraph.ensure
  split at h
  · rename_i hnone
    rw [run_bind_of_ok (modify_run _ s)] at h
    obtain ⟨_, s₁, hsend, h⟩ := bind_run_ok h
    obtain ⟨messages, hreport⟩ := reportEvery_run nodeInterval s₁.graph.nodes.length s₁
    rw [run_bind_of_ok (get_run s₁), hreport] at h
    cases h
    rw [if_pos hnone]
    exact send_graph hsend
  · rename_i hsome
    cases h
    rw [if_neg hsome]

theorem addCall_graph {caller callee : Function}
    (h : (m.addCall caller callee).run.run s = (.ok (), s')) :
    s'.graph = s.graph.addCall (caller, callee) := by
  unfold addCall at h
  obtain ⟨_, s₁, hcaller, h⟩ := bind_run_ok h
  obtain ⟨_, s₂, hcallee, h⟩ := bind_run_ok h
  rw [run_bind_of_ok (modify_run _ s₂)] at h
  obtain ⟨_, s₃, hsend, h⟩ := bind_run_ok h
  obtain ⟨messages, hreport⟩ := reportEvery_run edgeInterval s₃.graph.edges.length s₃
  rw [run_bind_of_ok (get_run s₃), hreport] at h
  cases h
  show s₃.graph = _
  rw [send_graph hsend, ensureNode_graph hcallee, ensureNode_graph hcaller]
  rfl

theorem visitCall_graph {e : FuncId × FuncId} (h : (m.visitCall e.1 e.2).run.run s = (.ok (), s')) :
    s'.graph = (m.kept [e]).foldl KeyGraph.addCall s.graph := by
  unfold visitCall at h
  obtain ⟨_, s₁, hcheck, hrest⟩ := bind_run_ok h
  obtain rfl := checkCancelled_eq hcheck
  obtain ⟨callers, progress, hrecord⟩ := recordCaller_run e.1 s₁
  rw [run_bind_of_ok hrecord] at hrest
  split at hrest
  · rename_i haccepts
    rw [addCall_graph hrest]
    simp [kept, haccepts]
  · rename_i hrefused
    cases hrest
    simp [kept, hrefused]

theorem forM_visitCall_graph {calls : List (FuncId × FuncId)}
    (h : (forM calls fun e => m.visitCall e.1 e.2).run.run s = (.ok (), s')) :
    s'.graph = (m.kept calls).foldl KeyGraph.addCall s.graph := by
  induction calls generalizing s with
  | nil =>
    cases h
    rfl
  | cons e calls ih =>
    rw [List.forM_cons] at h
    obtain ⟨_, s₁, hfirst, h⟩ := bind_run_ok h
    rw [ih h, visitCall_graph hfirst, m.kept_cons e calls, List.foldl_append]

/-! ## The whole walk -/

/-- Before the first call only the progress and the messages change. -/
theorem walk_start (m : Materializer) (g : CallGraph) : ∃ progress messages, (m.walk g).run.run {} =
    (g.visit m.visitCall >>= fun _ => get >>= fun s => pure s.graph : Action KeyGraph).run.run
      { progress, messages } :=
  ⟨_, _, (run_bind_of_ok (modify_run _ _)).trans (run_bind_of_ok (modify_run _ _))⟩

/-- A walk that returns a graph returns that of the calls kept. -/
theorem eq_of_run_eq_ok {g : CallGraph} {out : KeyGraph} (h : (m.run g).1 = .ok out) :
    out = (m.kept g.walk).foldl KeyGraph.addCall ∅ := by
  have hwalk : (m.walk g).run.run {} = (.ok out, ((m.walk g).run.run {}).2) := Prod.ext h rfl
  obtain ⟨progress, messages, hstart⟩ := m.walk_start g
  rw [hstart] at hwalk
  obtain ⟨_, s, hvisit, hend⟩ := bind_run_ok hwalk
  rw [CallGraph.visit_eq_forM_walk] at hvisit
  have hgraph := forM_visitCall_graph hvisit
  rw [run_bind_of_ok (get_run s)] at hend
  cases hend
  exact hgraph

theorem walk_run (hcancel : m.cancelled = false) {g : CallGraph}
    (htake : m.outlets.take ((m.kept g.walk).foldl KeyGraph.addCall ∅) = true) :
    ∃ s, (m.walk g).run.run {} = (.ok s.graph, s) ∧
      s.graph = (m.kept g.walk).foldl KeyGraph.addCall ∅ ∧ Told m s := by
  obtain ⟨progress, messages, hstart⟩ := m.walk_start g
  obtain ⟨s, hrun, hgraph, htold⟩ :=
    forM_visitCall_run (s := { progress, messages }) hcancel g.walk (told_nil m) htake
  refine ⟨s, ?_, hgraph, htold⟩
  rw [← CallGraph.visit_eq_forM_walk] at hrun
  rw [hstart, run_bind_of_ok hrun, run_bind_of_ok (get_run s)]
  rfl

theorem run_eq_ok (hcancel : m.cancelled = false) {g : CallGraph}
    (htake : m.outlets.take ((m.kept g.walk).foldl KeyGraph.addCall ∅) = true) :
    (m.run g).1 = .ok ((m.kept g.walk).foldl KeyGraph.addCall ∅) := by
  obtain ⟨s, hwalk, hgraph, _⟩ := walk_run hcancel htake
  rw [run, hwalk, hgraph]
  rfl

/-- **The graph of a walk is that of the calls kept.** If the walk is not cancelled, then whoever
takes the items, and also if nobody looks at them, it returns one and the same graph. Its edges are
the calls of the walk that the filter accepts, in order and as often; its nodes are the keys of
their ends, the caller before the callee, each where it comes first, with the package and name of
the first function under the key; and the children and parents of a node are its edges, in order. -/
theorem run_graph_eq_kept (m : Materializer) (g : CallGraph) (hcancel : m.cancelled = false) :
    ∃ out : KeyGraph,
      (∀ outlets : Outlets, outlets.take out = true → ({ m with outlets }.run g).1 = .ok out) ∧
      ({ m with outlets := .discard }.run g).1 = .ok out ∧
      out.edges = (m.kept g.walk).map (fun c => ⟨c.1.key, c.2.key⟩) ∧
      out.nodes.map GraphNode.key =
        ((m.kept g.walk).flatMap fun c => [c.1.key, c.2.key]).eraseDups ∧
      ∀ n ∈ out.nodes,
        (∃ f, ((m.kept g.walk).flatMap fun c => [c.1, c.2]).find?
          (fun f => f.key == n.key) = some f ∧ n.package = f.package.getD "" ∧ n.name = f.name) ∧
        n.children = (out.edges.filter fun e => e.caller == n.key).map GraphEdge.callee ∧
        n.parents = (out.edges.filter fun e => e.callee == n.key).map GraphEdge.caller := by
  have hshows := KeyGraph.shows_foldl_addCall (m.kept g.walk)
  have hrun : ∀ outlets : Outlets, outlets.take ((m.kept g.walk).foldl KeyGraph.addCall ∅) = true →
      ({ m with outlets }.run g).1 = .ok ((m.kept g.walk).foldl KeyGraph.addCall ∅) :=
    fun outlets htake => run_eq_ok (m := { m with outlets }) hcancel htake
  refine ⟨_, hrun, hrun .discard rfl, hshows.edges_eq, ?_, fun n hn => ⟨hshows.first n hn, ?_, ?_⟩⟩
  · rw [hshows.keys_eq, KeyGraph.endsOf, List.map_flatMap]
    rfl
  · rw [hshows.edges_eq]
    exact hshows.children n hn
  · rw [hshows.edges_eq]
    exact hshows.parents n hn

/-- Two functions under one key, and a wrapper that is not kept. The consumers stay for two nodes
and three edges. -/
def sharedKey : Materializer where
  program := { functions := [
    { key := "x.y/m.main", name := "main", package := some "x.y/m", kind := .function },
    { id := 1, key := "x.y/m.f", name := "f", package := some "x.y/m", kind := .function },
    { id := 2, key := "x.y/m.f", name := "g", package := some "x.y/m", kind := .function },
    { id := 3, key := "x.y/m.f$thunk", name := "f$thunk", package := none, kind := .thunk }] }
  filter := { module := "x.y/m" }
  label := "static"
  outlets := { nodes := .consumer (some 2), edges := .consumer (some 3) }

/-- `main` calls all three, and the first `f` calls itself. -/
def sharedKeyCalls : CallGraph :=
  .ofInsertions [.edge ⟨0, 1, 3⟩, .edge ⟨0, 2, 4⟩, .edge ⟨1, 1, 9⟩, .edge ⟨0, 3, 5⟩]

theorem run_graph_eq_kept_sharedKey : sharedKey.cancelled = false ∧
    ∃ out, sharedKey.outlets.take out = true ∧ (sharedKey.run sharedKeyCalls).1 = .ok out ∧
      out.edges = [⟨"x.y/m.f", "x.y/m.f"⟩, ⟨"x.y/m.main", "x.y/m.f"⟩, ⟨"x.y/m.main", "x.y/m.f"⟩] ∧
      out.nodes.map GraphNode.key = ["x.y/m.f", "x.y/m.main"] := by
  obtain ⟨out, hrun, _, hedges, hkeys, _⟩ := run_graph_eq_kept sharedKey sharedKeyCalls rfl
  have hkept : (sharedKey.kept sharedKeyCalls.walk).map
      (fun c => (⟨c.1.key, c.2.key⟩ : GraphEdge)) =
      [⟨"x.y/m.f", "x.y/m.f"⟩, ⟨"x.y/m.main", "x.y/m.f"⟩, ⟨"x.y/m.main", "x.y/m.f"⟩] ∧
      ((sharedKey.kept sharedKeyCalls.walk).flatMap fun c => [c.1.key, c.2.key]).eraseDups =
        ["x.y/m.f", "x.y/m.main"] := by
    decide +kernel
  rw [hkept.1] at hedges
  rw [hkept.2] at hkeys
  have hnodes : out.nodes.length = 2 := by rw [← List.length_map GraphNode.key, hkeys]; rfl
  have htake : sharedKey.outlets.take out = true := by
    rw [Outlets.take, hnodes, hedges]
    rfl
  exact ⟨rfl, out, htake, hrun sharedKey.outlets htake, hedges, hkeys⟩

end Materializer

end CallAtlas
