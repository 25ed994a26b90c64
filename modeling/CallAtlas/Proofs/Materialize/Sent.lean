import CallAtlas.Proofs.Materialize.Saved
import CallAtlas.Proofs.Walk.Postorder

/-!
# What a walk sends, and where it is cut

Which items a walk sends, and in which order, is known from the calls that are kept: the nodes of a
call that are new, then its edge (`KeyGraph.itemsOf`). Who takes the items has no part in it.
Consumers only decide how far the walk comes, and for that it is enough to look at the items:
`deliver` hands them over one after another and stops at the first that is refused. `Sends` says of
an action that this is all it does.

Main statement: the items agree with the graph that is returned, and a consumer that goes away cuts
the sequence where it goes.
-/

set_option autoImplicit false

namespace CallAtlas

/-! ## The items of some calls -/

namespace KeyGraph

variable (g : KeyGraph)

/-- The node of a function is sent if it is new. -/
def nodeItems (f : Function) : List Item :=
  if (g.node? f.key).isNone then [.node (.ofFunction f)] else []

/-- The items of a call that is added. -/
def callItems (c : Function × Function) : List Item :=
  g.nodeItems c.1 ++ ((g.ensure c.1).nodeItems c.2 ++ [.edge (.ofCall c)])

/-- The items of calls that are added one after another. -/
def itemsOf : KeyGraph → List (Function × Function) → List Item
  | _, [] => []
  | g, c :: calls => g.callItems c ++ itemsOf (g.addCall c) calls

theorem itemsOf_append (xs ys : List (Function × Function)) :
    g.itemsOf (xs ++ ys) = g.itemsOf xs ++ (xs.foldl addCall g).itemsOf ys := by
  induction xs generalizing g with
  | nil => rfl
  | cons c xs ih => rw [List.cons_append, itemsOf, ih, itemsOf, List.append_assoc, List.foldl_cons]

end KeyGraph

/-- A node with the key is among the items. -/
def Item.Names (items : List Item) (key : String) : Prop := ∃ n, Item.node n ∈ items ∧ n.key = key

/-- In front of every edge are the nodes of its ends. -/
def Item.Announced (items : List Item) : Prop :=
  ∀ before e after, items = before ++ .edge e :: after → ∀ key ∈ [e.caller, e.callee],
    Names before key

section Announced

variable {items : List Item} {g : KeyGraph}

theorem Item.Names.append {key : String} (h : Item.Names items key) (more : List Item) :
    Item.Names (items ++ more) key := by
  obtain ⟨n, hn, hkey⟩ := h
  exact ⟨n, List.mem_append_left _ hn, hkey⟩

theorem Item.Announced.concat (h : Item.Announced items) {item : Item}
    (hlast : ∀ e, item = .edge e → ∀ key ∈ [e.caller, e.callee], Item.Names items key) :
    Item.Announced (items ++ [item]) := by
  intro before e after heq
  -- the edge is the last item, or it was there before
  rcases List.eq_nil_or_concat after with rfl | ⟨after, last, rfl⟩
  · obtain ⟨rfl, hitem⟩ := List.append_inj' heq rfl
    exact hlast e (List.cons.inj hitem).1
  · have heq' : items ++ [item] = (before ++ .edge e :: after) ++ [last] := by simpa using heq
    exact h before e after (List.append_inj' heq' rfl).1

theorem KeyGraph.key_mem_ensure (g : KeyGraph) (f : Function) :
    f.key ∈ (g.ensure f).nodes.map GraphNode.key := by
  by_cases h : f.key ∈ g.nodes.map GraphNode.key
  · rwa [ensure_of_mem h]
  · rw [ensure_of_notMem h]
    simp [addNode, GraphNode.ofFunction]

/-- The keys of a graph are named by what was sent, and stay so with the node of a function. -/
theorem KeyGraph.names_ensure (hnames : ∀ key ∈ g.nodes.map GraphNode.key, Item.Names items key)
    (f : Function) : ∀ key ∈ (g.ensure f).nodes.map GraphNode.key,
      Item.Names (items ++ g.nodeItems f) key := by
  intro key hkey
  unfold ensure at hkey
  unfold nodeItems
  split at hkey
  · rename_i hnone
    rw [if_pos hnone]
    simp only [addNode, List.map_append, List.mem_append, List.map_singleton,
      List.mem_singleton] at hkey
    rcases hkey with hkey | rfl
    · exact (hnames key hkey).append _
    · exact ⟨.ofFunction f, by simp, rfl⟩
  · exact (hnames key hkey).append _

theorem Item.Announced.nodeItems (h : Item.Announced items) (g : KeyGraph) (f : Function) :
    Item.Announced (items ++ g.nodeItems f) := by
  unfold KeyGraph.nodeItems
  split
  · apply h.concat
    intro e he
    cases he
  · rwa [List.append_nil]

theorem Item.Announced.callItems (h : Item.Announced items)
    (hnames : ∀ key ∈ g.nodes.map GraphNode.key, Item.Names items key) (c : Function × Function) :
    Item.Announced (items ++ g.callItems c) ∧
      ∀ key ∈ (g.addCall c).nodes.map GraphNode.key, Item.Names (items ++ g.callItems c) key := by
  have hends := KeyGraph.names_ensure (KeyGraph.names_ensure hnames c.1) c.2
  have hcallee := (g.ensure c.1).key_mem_ensure c.2
  have hcaller : c.1.key ∈ ((g.ensure c.1).ensure c.2).nodes.map GraphNode.key := by
    have hkey := g.key_mem_ensure c.1
    by_cases hmem : c.2.key ∈ (g.ensure c.1).nodes.map GraphNode.key
    · rwa [KeyGraph.ensure_of_mem hmem]
    · rw [KeyGraph.ensure_of_notMem hmem]
      simp only [KeyGraph.addNode, List.map_append, List.mem_append]
      exact Or.inl hkey
  unfold KeyGraph.callItems
  rw [← List.append_assoc, ← List.append_assoc]
  constructor
  · apply ((h.nodeItems g c.1).nodeItems (g.ensure c.1) c.2).concat
    intro e he key hkey
    cases he
    simp only [GraphEdge.ofCall, List.mem_cons, List.not_mem_nil, or_false] at hkey
    rcases hkey with rfl | rfl
    · exact hends _ hcaller
    · exact hends _ hcallee
  · intro key hkey
    apply Item.Names.append
    apply hends
    simpa [KeyGraph.addCall, KeyGraph.addEdge] using hkey

theorem Item.announced_itemsOf (calls : List (Function × Function)) :
    Item.Announced ((∅ : KeyGraph).itemsOf calls) := by
  have hfold : ∀ (items : List Item) (g : KeyGraph), Item.Announced items →
      (∀ key ∈ g.nodes.map GraphNode.key, Item.Names items key) →
        Item.Announced (items ++ g.itemsOf calls) := by
    induction calls with
    | nil =>
      intro items g h _
      rwa [KeyGraph.itemsOf, List.append_nil]
    | cons c calls ih =>
      intro items g h hnames
      obtain ⟨hcall, hnames'⟩ := h.callItems hnames c
      rw [KeyGraph.itemsOf, ← List.append_assoc]
      exact ih _ _ hcall hnames'
  have hnone : Item.Announced [] := by
    intro before e after heq
    simp at heq
  exact hfold [] ∅ hnone (by simp [EmptyCollection.emptyCollection])

end Announced

/-! ## Handing over -/

/-- Both streams have a consumer. -/
def Outlets.Heard (outlets : Outlets) : Prop := ∀ stream, outlets.of stream ≠ .discard

/-- The consumers stay for these items. -/
def Outlets.Accept (outlets : Outlets) (items : List Item) : Prop :=
  ∀ stream, (outlets.of stream).takes (items.filter fun i => i.stream == stream).length = true

theorem Outlets.heard_open : ({} : Outlets).Heard := by
  intro stream
  cases stream with
  | nodes => nofun
  | edges => nofun

theorem Outlets.accept_open (items : List Item) : ({} : Outlets).Accept items := by
  intro stream
  cases stream with
  | nodes => rfl
  | edges => rfl

theorem Outlets.Accept.front {outlets : Outlets} {xs ys : List Item}
    (h : outlets.Accept (xs ++ ys)) : outlets.Accept xs := by
  intro stream
  apply Outlet.takes_mono ?_ (h stream)
  rw [List.filter_append, List.length_append]
  exact Nat.le_add_right _ _

/-- The consumers go away after these items, each with those of its stream. -/
def Outlets.upTo (items : List Item) : Outlets where
  nodes := .consumer (some (items.filter fun i => i.stream == .nodes).length)
  edges := .consumer (some (items.filter fun i => i.stream == .edges).length)

theorem Outlets.heard_upTo (items : List Item) : (Outlets.upTo items).Heard := by
  intro stream
  cases stream with
  | nodes => nofun
  | edges => nofun

theorem Outlets.takes_upTo (items : List Item) (stream : Stream) (count : Nat) :
    ((Outlets.upTo items).of stream).takes count = true ↔
      count ≤ (items.filter fun i => i.stream == stream).length := by
  cases stream with
  | nodes => simp [upTo, of, Outlet.takes]
  | edges => simp [upTo, of, Outlet.takes]

theorem Outlets.accept_upTo (items : List Item) : (Outlets.upTo items).Accept items := by
  intro stream
  exact (takes_upTo items stream _).mpr (Nat.le_refl _)

theorem Outlets.not_accept_upTo (items : List Item) (item : Item) :
    ¬ (Outlets.upTo items).Accept (items ++ [item]) := by
  intro h
  have hroom := (takes_upTo items item.stream _).mp (h item.stream)
  rw [List.filter_append, List.filter_cons_of_pos (by simp), List.length_append] at hroom
  exact Nat.not_succ_le_self _ hroom

namespace Materializer

variable {m : Materializer} {sent sent' xs ys items : List Item} {s : State}

/-- Hands over items behind those that were sent, up to the first that is refused. -/
def deliver (m : Materializer) (sent : List Item) : List Item → Except Error Unit × List Item
  | [] => (.ok (), sent)
  | item :: rest =>
    if (m.outlets.of item.stream).takes
        ((sent.filter fun i => i.stream == item.stream).length + 1) then
      deliver m (sent ++ [item]) rest
    else (.error (.streamClosed item.stream), sent)

theorem deliver_append_of_ok (h : m.deliver sent xs = (.ok (), sent')) (ys : List Item) :
    m.deliver sent (xs ++ ys) = m.deliver sent' ys := by
  induction xs generalizing sent with
  | nil =>
    cases h
    rfl
  | cons item xs ih =>
    rw [List.cons_append, deliver]
    rw [deliver] at h
    split at h
    · rename_i hroom
      rw [if_pos hroom]
      exact ih h
    · cases h

theorem deliver_append_of_error {error : Error} (h : m.deliver sent xs = (.error error, sent'))
    (ys : List Item) : m.deliver sent (xs ++ ys) = (.error error, sent') := by
  induction xs generalizing sent with
  | nil => cases h
  | cons item xs ih =>
    rw [List.cons_append, deliver]
    rw [deliver] at h
    split at h
    · rename_i hroom
      rw [if_pos hroom]
      exact ih h
    · rename_i hfull
      rw [if_neg hfull]
      exact h

theorem deliver_of_accept (sent : List Item) (h : m.outlets.Accept (sent ++ items)) :
    m.deliver sent items = (.ok (), sent ++ items) := by
  induction items generalizing sent with
  | nil =>
    rw [List.append_nil]
    rfl
  | cons item rest ih =>
    rw [List.append_cons] at h ⊢
    have hroom := h.front item.stream
    rw [List.filter_append, List.filter_cons_of_pos (by simp), List.length_append] at hroom
    rw [deliver, if_pos (by exact hroom)]
    exact ih _ h

theorem deliver_of_refused {item : Item} (h : m.outlets.Accept sent)
    (hrefused : ¬ m.outlets.Accept (sent ++ [item])) :
    (m.outlets.of item.stream).takes
      ((sent.filter fun i => i.stream == item.stream).length + 1) = false := by
  rw [Bool.eq_false_iff]
  intro hroom
  apply hrefused
  intro stream
  rw [List.filter_append, List.length_append]
  by_cases heq : item.stream = stream
  · subst heq
    rwa [List.filter_cons_of_pos (by simp)]
  · rw [List.filter_cons_of_neg (by simpa using heq)]
    exact h stream

theorem deliver_cut {item : Item} {before after : List Item} (h : m.outlets.Accept before)
    (hrefused : ¬ m.outlets.Accept (before ++ [item])) :
    m.deliver [] (before ++ item :: after) = (.error (.streamClosed item.stream), before) := by
  rw [deliver_append_of_ok (deliver_of_accept [] h)]
  unfold deliver
  rw [List.nil_append, if_neg (Bool.eq_false_iff.mp (deliver_of_refused h hrefused))]

/-! ## Actions that hand over items -/

/-- Run from this state, the action hands over the items and does nothing else with what was sent.
If all of them are taken, the graph is this one behind it. -/
def Sends (m : Materializer) (x : Action Unit) (s : State) (items : List Item)
    (g : KeyGraph) : Prop :=
  ∃ s', x.run.run s = ((m.deliver s.sent items).1, s') ∧ s'.sent = (m.deliver s.sent items).2 ∧
    ((m.deliver s.sent items).1 = .ok () → s'.graph = g)

theorem Sends.quiet {x : Action Unit} {s' : State} (h : x.run.run s = (.ok (), s'))
    (hsent : s'.sent = s.sent) : Sends m x s [] s'.graph :=
  ⟨s', h, hsent, fun _ => rfl⟩

theorem Sends.bind {x y : Action Unit} {g g' : KeyGraph} (hx : Sends m x s xs g)
    (hy : ∀ s', s'.graph = g → Sends m y s' ys g') :
    Sends m (x >>= fun _ => y) s (xs ++ ys) g' := by
  obtain ⟨s', hrun, hsent, hgraph⟩ := hx
  cases hxs : m.deliver s.sent xs with
  | mk answer sent' =>
    rw [hxs] at hrun hsent hgraph
    cases answer with
    | ok _ =>
      obtain ⟨s'', hrun', hsent', hgraph'⟩ := hy s' (hgraph rfl)
      rw [hsent] at hrun' hsent' hgraph'
      rw [Sends, deliver_append_of_ok hxs]
      exact ⟨s'', (run_bind_of_ok hrun).trans hrun', hsent', hgraph'⟩
    | error error =>
      rw [Sends, deliver_append_of_error hxs]
      exact ⟨s', run_bind_of_error hrun, hsent, nofun⟩

theorem Sends.andThen {x y : Action Unit} {g g' : KeyGraph} (hx : Sends m x s xs g)
    (hy : ∀ s', s'.graph = g → Sends m y s' [] g') : Sends m (x >>= fun _ => y) s xs g' := by
  have hbind := hx.bind hy
  rwa [List.append_nil] at hbind

theorem Sends.after_get {f : State → Action Unit} {g : KeyGraph} (h : Sends m (f s) s items g) :
    Sends m (get >>= f) s items g := by
  obtain ⟨s', hrun, hrest⟩ := h
  exact ⟨s', (run_bind_of_ok (get_run s)).trans hrun, hrest⟩

theorem Sends.after_modify {f : State → State} (hsent : (f s).sent = s.sent) {y : Action Unit}
    {g : KeyGraph} (h : Sends m y (f s) items g) : Sends m (modify f >>= fun _ => y) s items g := by
  obtain ⟨s', hrun, hrest⟩ := h
  rw [hsent] at hrun hrest
  exact ⟨s', (run_bind_of_ok (modify_run f s)).trans hrun, hrest⟩

variable (hcancel : m.cancelled = false) (hheard : m.outlets.Heard)

include hcancel hheard

theorem sends_send (item : Item) (s : State) : Sends m (m.send item) s [item] s.graph := by
  unfold Sends deliver deliver
  unfold send
  cases ho : m.outlets.of item.stream with
  | discard => exact absurd ho (hheard item.stream)
  | consumer limit =>
    simp only [Outlet.takes, Nat.succ_le_iff]
    rw [run_bind_of_ok (checkCancelled_run hcancel), run_bind_of_ok (get_run s)]
    split
    · exact ⟨_, modify_run _ s, rfl, fun _ => rfl⟩
    · exact ⟨s, rfl, rfl, fun h => by cases h⟩

omit hcancel hheard in
theorem sends_reportEvery (interval : Nat) (count : KeyGraph → Nat) (s : State) :
    Sends m (get >>= fun s => reportEvery interval (count s.graph)) s [] s.graph := by
  apply Sends.after_get
  obtain ⟨messages, hreport⟩ := reportEvery_run interval (count s.graph) s
  have hquiet := Sends.quiet (m := m) hreport rfl
  exact hquiet

theorem sends_ensureNode (f : Function) (s : State) :
    Sends m (m.ensureNode f) s (s.graph.nodeItems f) (s.graph.ensure f) := by
  unfold ensureNode
  apply Sends.after_get
  unfold KeyGraph.nodeItems KeyGraph.ensure
  split
  · apply Sends.after_modify (f := fun s => { s with graph := s.graph.addNode _ }) rfl
    apply (sends_send hcancel hheard _ _).andThen
    intro s' hgraph
    have hreport := sends_reportEvery (m := m) nodeInterval (fun g => g.nodes.length) s'
    rwa [hgraph] at hreport
  · exact .quiet rfl rfl

theorem sends_addCall (caller callee : Function) (s : State) :
    Sends m (m.addCall caller callee) s (s.graph.callItems (caller, callee))
      (s.graph.addCall (caller, callee)) := by
  unfold addCall KeyGraph.callItems
  apply (sends_ensureNode hcancel hheard caller s).bind
  intro s₁ hgraph₁
  have hcallee := sends_ensureNode hcancel hheard callee s₁
  rw [hgraph₁] at hcallee
  apply hcallee.bind
  intro s₂ hgraph₂
  apply Sends.after_modify (f := fun s => { s with graph := s.graph.addEdge _ }) rfl
  apply (sends_send hcancel hheard _ _).andThen
  intro s₃ hgraph₃
  have hreport := sends_reportEvery (m := m) edgeInterval (fun g => g.edges.length) s₃
  rw [hgraph₃] at hreport
  unfold KeyGraph.addCall
  rw [← hgraph₂]
  exact hreport

theorem sends_visitCall (e : FuncId × FuncId) (s : State) :
    Sends m (m.visitCall e.1 e.2) s (s.graph.itemsOf (m.kept [e]))
      ((m.kept [e]).foldl KeyGraph.addCall s.graph) := by
  obtain ⟨callers, progress, hrecord⟩ := recordCaller_run e.1 s
  have hstart : (m.visitCall e.1 e.2).run.run s =
      (if m.filter.accepts (m.function e.1) (m.function e.2) then
        m.addCall (m.function e.1) (m.function e.2) else pure ()).run.run
            { s with callers, progress } := by
    unfold visitCall
    rw [run_bind_of_ok (checkCancelled_run hcancel), run_bind_of_ok hrecord]
  unfold Sends
  rw [hstart]
  by_cases haccepts : m.filter.accepts (m.function e.1) (m.function e.2) = true
  · have hkept : m.kept [e] = [(m.function e.1, m.function e.2)] := by
      simp [kept, haccepts]
    rw [hkept, if_pos haccepts, KeyGraph.itemsOf, KeyGraph.itemsOf, List.append_nil]
    exact sends_addCall hcancel hheard (m.function e.1) (m.function e.2)
      { s with callers, progress }
  · have hkept : m.kept [e] = [] := by
      simp [kept, haccepts]
    rw [hkept, if_neg haccepts]
    exact ⟨{ s with callers, progress }, rfl, rfl, fun _ => rfl⟩

theorem sends_forM (calls : List (FuncId × FuncId)) (s : State) :
    Sends m (forM calls fun e => m.visitCall e.1 e.2) s (s.graph.itemsOf (m.kept calls))
      ((m.kept calls).foldl KeyGraph.addCall s.graph) := by
  induction calls generalizing s with
  | nil => exact .quiet rfl rfl
  | cons e calls ih =>
    rw [List.forM_cons, kept_cons, KeyGraph.itemsOf_append, List.foldl_append]
    apply (sends_visitCall hcancel hheard e s).bind
    intro s' hgraph
    have hrest := ih s'
    rwa [hgraph] at hrest

/-- A walk hands over the items of the calls that are kept, and returns their graph if all are
taken. -/
theorem run_deliver {items : List Item} (g : CallGraph)
    (hitems : items = (∅ : KeyGraph).itemsOf (m.kept g.walk)) :
    (m.run g).2.sent = (m.deliver [] items).2 ∧
      ((m.deliver [] items).1 = .ok () → (m.run g).1 = .ok (m.keptGraph g)) ∧
      ∀ error, (m.deliver [] items).1 = .error error → (m.run g).1 = .error error := by
  obtain ⟨progress, messages, hstart⟩ := m.walk_start g
  have hsends := sends_forM hcancel hheard g.walk { progress, messages }
  rw [← CallGraph.visit_eq_forM_walk] at hsends
  subst hitems
  obtain ⟨s, hrun, hsent, hgraph⟩ := hsends
  -- the first messages are no part of what is sent
  have hempty : ({ progress, messages } : State).graph = ∅ := rfl
  rw [hempty] at hrun hsent hgraph
  cases hdelivered : m.deliver [] ((∅ : KeyGraph).itemsOf (m.kept g.walk)) with
  | mk answer sent =>
    rw [hdelivered] at hrun hsent hgraph
    cases answer with
    | ok _ =>
      have hwalk : (m.walk g).run.run {} = (.ok s.graph, s) := by
        rw [hstart, run_bind_of_ok hrun, run_bind_of_ok (get_run s)]
        rfl
      refine ⟨?_, fun _ => ?_, ?_⟩
      · rw [run, hwalk]
        exact hsent
      · rw [run, hwalk, hgraph rfl]
        rfl
      · rintro _ ⟨⟩
    | error error =>
      have hwalk : (m.walk g).run.run {} = (.error error, s) := by
        rw [hstart, run_bind_of_error hrun]
      refine ⟨?_, ?_, ?_⟩
      · rw [run, hwalk]
        exact hsent
      · rintro ⟨⟩
      · rintro _ ⟨⟩
        rw [run, hwalk]
        rfl

omit hcancel hheard

/-- **What is sent agrees with the graph, and is cut where a consumer goes.** A walk that is not
cancelled has a graph and a sequence of items that do not depend on who takes them. The nodes of the
sequence are those of the graph in order, without parents and children, its edges are those of the
graph in order, and in front of every edge are the nodes of its ends. Consumers that stay for the
whole sequence get it, and the graph is returned. Consumers that stay up to some item and refuse
that one get what is in front of it, and the walk fails because the stream of the item is closed.
Every item can be the one that is refused. -/
theorem sent_eq_items_before_closed (program : Program) (filter : EdgeFilter) (label : String)
    (g : CallGraph) :
    ∃ (out : KeyGraph) (items : List Item),
      items.filterMap Item.node? = out.nodes.map GraphNode.bare ∧
      items.filterMap Item.edge? = out.edges ∧
      (∀ before e after, items = before ++ .edge e :: after →
        ∀ key ∈ [e.caller, e.callee], ∃ n, Item.node n ∈ before ∧ n.key = key) ∧
      (∀ outlets : Outlets, outlets.Heard → outlets.Accept items →
        (run { program, filter, label, outlets } g).1 = .ok out ∧
          (run { program, filter, label, outlets } g).2.sent = items) ∧
      ∀ before item after, items = before ++ item :: after →
        (∃ outlets : Outlets, outlets.Heard ∧ outlets.Accept before ∧
          ¬ outlets.Accept (before ++ [item])) ∧
        ∀ outlets : Outlets, outlets.Heard → outlets.Accept before →
          ¬ outlets.Accept (before ++ [item]) →
          (run { program, filter, label, outlets } g).1 = .error (.streamClosed item.stream) ∧
            (run { program, filter, label, outlets } g).2.sent = before := by
  let m : Materializer := { program, filter, label }
  let items := (∅ : KeyGraph).itemsOf (m.kept g.walk)
  -- the calls that are kept, and with them graph and items, are the same for all outlets
  have hdeliver := fun (outlets : Outlets) (hheard : outlets.Heard) =>
    run_deliver (m := { program, filter, label, outlets }) rfl hheard g rfl
  have htaken : ∀ outlets : Outlets, outlets.Heard → outlets.Accept items →
      (run { program, filter, label, outlets } g).1 = .ok (m.keptGraph g) ∧
        (run { program, filter, label, outlets } g).2.sent = items := by
    intro outlets hheard haccept
    obtain ⟨hsent, hok, _⟩ := hdeliver outlets hheard
    have hall : deliver { program, filter, label, outlets } [] items = (.ok (), items) :=
      deliver_of_accept [] haccept
    exact ⟨hok (congrArg Prod.fst hall), hsent.trans (congrArg Prod.snd hall)⟩
  obtain ⟨_, hnodes, hedges⟩ := run_open (m := m) rfl rfl g
  have hopen : (m.run g).2.sent = items :=
    (htaken {} Outlets.heard_open (Outlets.accept_open items)).2
  rw [hopen] at hnodes hedges
  refine ⟨m.keptGraph g, items, hnodes, hedges, Item.announced_itemsOf _, htaken, ?_⟩
  intro before item after heq
  refine ⟨⟨.upTo before, Outlets.heard_upTo before, Outlets.accept_upTo before,
    Outlets.not_accept_upTo before item⟩, ?_⟩
  intro outlets hheard haccept hrefused
  obtain ⟨hsent, _, herror⟩ := hdeliver outlets hheard
  have hcut : deliver { program, filter, label, outlets } [] items =
      (.error (.streamClosed item.stream), before) := by
    rw [heq]
    exact deliver_cut haccept hrefused
  exact ⟨herror _ (congrArg Prod.fst hcut), hsent.trans (congrArg Prod.snd hcut)⟩

/-- What is sent of `sharedKeyCalls` before the second edge. -/
def beforeSecondEdge : List Item :=
  [.node { key := "x.y/m.f", package := "x.y/m", name := "f" },
   .edge ⟨"x.y/m.f", "x.y/m.f"⟩,
   .node { key := "x.y/m.main", package := "x.y/m", name := "main" }]

theorem openSharedKey_sent : (openSharedKey.run sharedKeyCalls).2.sent = beforeSecondEdge ++
    [.edge ⟨"x.y/m.main", "x.y/m.f"⟩, .edge ⟨"x.y/m.main", "x.y/m.f"⟩] := by
  decide +kernel

-- The consumer of the nodes stays, that of the edges goes after the first.
theorem sent_eq_items_before_closed_edges :
    (run { openSharedKey with outlets := ⟨.consumer none, .consumer (some 1)⟩ } sharedKeyCalls).1 =
        .error (.streamClosed .edges) ∧
      (run { openSharedKey with outlets := ⟨.consumer none, .consumer (some 1)⟩ }
        sharedKeyCalls).2.sent = beforeSecondEdge := by
  obtain ⟨out, items, _, _, _, htaken, hcut⟩ := sent_eq_items_before_closed openSharedKey.program
    openSharedKey.filter openSharedKey.label sharedKeyCalls
  have hitems := (htaken {} Outlets.heard_open (Outlets.accept_open items)).2.symm.trans
    openSharedKey_sent
  obtain ⟨_, hclosed⟩ := hcut _ _ _ hitems
  apply hclosed
  · intro stream
    cases stream with
    | nodes => nofun
    | edges => nofun
  · intro stream
    cases stream with
    | nodes => rfl
    | edges => rfl
  · intro h
    have hedges := h .edges
    cases hedges

end Materializer

end CallAtlas
