import CallAtlas.Proofs.Program.Enclosing
import CallAtlas.Proofs.Resolve.Sites

/-!
# The scopes around a function literal

The body of a function literal may use what the functions around it declare. The reader finds it in
the scopes that it has kept of them. A function that has not been read has an empty scope, so a name
would be missed without notice if a literal were read before a function around it, and it would mean
different things at different times if a scope that has been kept were changed again.

Neither happens. Initializers are read first and have nothing around them, all other functions are
read by their numbers, and a literal has a larger number than what is around it
(`mem_done_of_encloses`). A step changes only the scope in the current frame, and each function is
read once (`scope_behind`).

`Passes` says which states the reader passes, also in the middle of a body. Main statement:
`Assembly.scopes_around_complete`.
-/

set_option autoImplicit false

namespace CallAtlas.Resolve

open Outline (Expr Stmt)

variable {p : Program} {s t : State} {id outer : FuncId}

/-! ## The order of reading -/

/-- No function is read before one around it. -/
theorem pairwise_readingOrder (hp : p.ParentsBefore)
    (hliterals : Assembly.ParentsOfLiterals p.functions) :
    (readingOrder p).Pairwise fun id later => ¬ p.Encloses later id := by
  have hids : (List.range p.functions.length).Pairwise fun id later => ¬ p.Encloses later id := by
    refine List.pairwise_lt_range.imp fun {id later} hlt hencloses => ?_
    exact Nat.lt_asymm hlt (hp.lt_of_encloses hencloses)
  refine List.pairwise_append.mpr ⟨hids.filter _, hids.filter _, fun id hid later _ hencloses => ?_⟩
  -- an initializer is no literal, so nothing is around it
  obtain ⟨q, hq⟩ := hencloses.exists_parent?
  obtain ⟨f, hf, hparent⟩ := Option.bind_eq_some_iff.mp hq
  have hinitializer := (List.mem_filter.mp hid).2
  simp only [hf, hliterals f (List.mem_of_getElem? hf) q hparent] at hinitializer
  exact absurd hinitializer (by decide)

/-- The functions around a function have been read when it is its turn. -/
theorem mem_done_of_encloses (hp : p.ParentsBefore)
    (hliterals : Assembly.ParentsOfLiterals p.functions) {done later : List FuncId}
    (horder : readingOrder p = done ++ id :: later) (h : p.Encloses outer id) : outer ∈ done := by
  have hlt := hp.lt_of_encloses h
  have hmem : outer ∈ readingOrder p := by
    obtain ⟨q, hq⟩ := h.exists_parent?
    exact (readingOrder_perm p).mem_iff.mpr
      (List.mem_range.mpr (Nat.lt_trans hlt (Program.lt_of_parent? hq)))
  have hpairwise := pairwise_readingOrder hp hliterals
  rw [horder] at hmem hpairwise
  rcases List.mem_append.mp hmem with hdone | hrest
  · exact hdone
  · rcases List.mem_cons.mp hrest with rfl | hlater
    · exact absurd hlt (Nat.lt_irrefl _)
    · exact absurd h ((List.pairwise_cons.mp (List.pairwise_append.mp hpairwise).2.1).1 outer
        hlater)

/-! ## What steps keep -/

/-- Scopes are added behind those that are there. -/
theorem Step.scopes_grow (h : Step s t) : s.scopes <+: t.scopes := by
  cases h with
  | function f facts _ _ _ _ => exact List.prefix_append _ _
  | _ => exact List.prefix_rfl

theorem Steps.scopes_grow (h : Steps s t) : s.scopes <+: t.scopes :=
  h.preserves (P := fun t => s.scopes <+: t.scopes) (fun hstep hs => hs.trans hstep.scopes_grow)
    List.prefix_rfl

theorem Steps.scope_eq (h : Steps s t) {scope : Scope} (hs : s.scopes[id]? = some scope) :
    t.scopes[id]? = some scope :=
  getElem?_of_extends h.scopes_grow hs

/-- A function that is added has nothing around it. -/
theorem Step.parent?_eq (h : Step s t) : t.program.parent? = s.program.parent? := by
  cases h with
  | function f facts _ _ hlinks _ =>
    funext id
    unfold Program.parent?
    rw [State.withFunction_functions]
    rcases Nat.lt_trichotomy id s.program.functions.length with hlt | rfl | hgt
    · rw [List.getElem?_append_left hlt]
    · rw [List.getElem?_concat_length, List.getElem?_eq_none (Nat.le_refl _)]
      exact hlinks.1
    · rw [List.getElem?_eq_none (by rw [List.length_append]; exact hgt),
        List.getElem?_eq_none (Nat.le_of_lt hgt)]
  | _ => rfl

/-- Every function has a scope, and the functions around it are those of the program. -/
structure Placed (p : Program) (s : State) : Prop where
  parents : s.program.parent? = p.parent?
  length : s.scopes.length = s.program.functions.length

theorem Step.placed (h : Step s t) (hs : Placed p s) : Placed p t :=
  ⟨h.parent?_eq.trans hs.parents, h.scopes_length hs.length⟩

theorem Steps.placed (h : Steps s t) (hs : Placed p s) : Placed p t := h.preserves Step.placed hs

/-- The state when some functions have been read. -/
abbrev State.behind (p : Program) (done : List FuncId) : State := done.foldl readFunction (.start p)

theorem placed_behind (p : Program) (done : List FuncId) : Placed p (.behind p done) :=
  invariant_foldl_readFunction (I := Placed p) (J := Placed p)
    (fun _ _ hs => ⟨hs.parents, hs.length⟩) Step.placed
    (fun hs => ⟨hs.parents, (List.length_set ..).trans hs.length⟩) done ⟨rfl,
      List.length_replicate ..⟩

theorem function_behind (done : List FuncId) (hlt : id < p.functions.length) :
    (State.behind p done).program.functions[id]? = p.functions[id]? :=
  getElem?_eq_of_extends (keeps_foldl_readFunction p done).functions hlt

/-! ## What reading a function keeps -/

/-- Reading a body leaves the scopes of all other functions. -/
theorem scope_readFunction_of_ne {other : FuncId} (hne : other ≠ id) {scope : Scope}
    (h : s.scopes[id]? = some scope) : (readFunction s other).scopes[id]? = some scope := by
  obtain hread | ⟨f, t, hsteps, hid, hread⟩ := readFunction_cases s other
  · rwa [hread]
  · rw [hread]
    simp only [State.close, hid, List.getElem?_set_ne hne]
    exact hsteps.scope_eq h

theorem scope_foldl_readFunction {ids : List FuncId} (hids : id ∉ ids) {scope : Scope}
    (h : s.scopes[id]? = some scope) : (ids.foldl readFunction s).scopes[id]? = some scope :=
  List.foldlRecOn (motive := fun s : State => s.scopes[id]? = some scope) ids readFunction h
    fun _ hs _ hother => scope_readFunction_of_ne (ne_of_mem_of_not_mem hother hids) hs

/-- The scope of a function when its body has been read to the end; without a body it
declares nothing. -/
def lastScope (p : Program) (id : FuncId) : Scope :=
  (((p.functions[id]?).bind fun f => f.body.map fun body =>
    ((readBody f body).after (State.enter (.behind p (readBefore p id)) id f)).frame.scope)).getD {}

theorem not_mem_readBefore (p : Program) (id : FuncId) : id ∉ readBefore p id := by
  intro h
  have hne := List.mem_takeWhile_imp h
  simp at hne

/-- When a function has been read, its scope is kept. -/
theorem scope_readFunction_self (hlt : id < p.functions.length) :
    (readFunction (.behind p (readBefore p id)) id).scopes[id]? = some (lastScope p id) := by
  have hfunction := function_behind (readBefore p id) hlt
  unfold lastScope
  cases hbody : (p.functions[id]?).bind Function.body with
  | none =>
    have hstart : (State.start p).scopes[id]? = some {} := List.getElem?_replicate_of_lt hlt
    rw [readFunction_of_no_body (hfunction ▸ hbody),
      scope_foldl_readFunction (not_mem_readBefore p id) hstart]
    obtain ⟨f, hf⟩ : ∃ f, p.functions[id]? = some f := ⟨_, List.getElem?_eq_getElem hlt⟩
    rw [hf, Option.bind_some] at hbody ⊢
    rw [hbody]
    rfl
  | some body =>
    obtain ⟨f, hf, hbody⟩ := Option.bind_eq_some_iff.mp hbody
    have hreads := (acts_readBody (s := State.enter (.behind p (readBefore p id)) id f) f body).1
    have hid : ((readBody f body).after (State.enter (.behind p (readBefore p id)) id f)).frame.id =
        id :=
      hreads.frame_id
    rw [readFunction_of_body (hfunction.trans hf) hbody, hf, Option.bind_some, hbody]
    simp only [State.close, hid]
    refine List.getElem?_set_self (Nat.lt_of_lt_of_le ?_ hreads.scopes_grow.length_le)
    exact (placed_behind p (readBefore p id)).length ▸
      Nat.lt_of_lt_of_le hlt (keeps_foldl_readFunction p (readBefore p id)).functions.length_le

/-- The functions before one that has been read are those that are always read before it. -/
theorem exists_eq_readBefore_append {done : List FuncId} (hdone : done <+: readingOrder p)
    (h : id ∈ done) : ∃ rest, done = readBefore p id ++ id :: rest ∧ id ∉ rest := by
  obtain ⟨later, hlater⟩ := hdone
  obtain ⟨before, rest, rfl, hbefore⟩ := List.eq_append_cons_of_mem h
  have hnodup : (before ++ id :: rest).Nodup := by
    have hall := nodup_readingOrder p
    rw [← hlater] at hall
    exact (List.nodup_append.mp hall).1
  refine ⟨rest, ?_, (List.nodup_cons.mp (List.nodup_append.mp hnodup).2.1).1⟩
  have hne : ∀ x ∈ before, (x != id) = true :=
    fun x hx => bne_iff_ne.mpr (ne_of_mem_of_not_mem hx hbefore)
  rw [readBefore, ← hlater, List.append_assoc, List.takeWhile_append_of_pos hne, List.cons_append,
    List.takeWhile_cons_of_neg (by simp), List.append_nil]

/-- From then on the scope of a function that has been read is the one that it ended with. -/
theorem scope_behind {done : List FuncId} (hdone : done <+: readingOrder p) (h : id ∈ done) :
    (State.behind p done).scopes[id]? = some (lastScope p id) := by
  have hlt : id < p.functions.length :=
    List.mem_range.mp ((readingOrder_perm p).mem_iff.mp (hdone.subset h))
  obtain ⟨rest, rfl, hrest⟩ := exists_eq_readBefore_append hdone h
  rw [State.behind, List.foldl_append, List.foldl_cons]
  exact scope_foldl_readFunction hrest (scope_readFunction_self hlt)

/-! ## The states that are passed -/

/-- The reader passes the state when the functions `done` have been read: between two bodies,
or in the middle of the body of the function that comes next. Whatever reading a body does,
it does by steps. -/
inductive Passes (p : Program) (done : List FuncId) : Option FuncId → State → Prop
  | between (h : done <+: readingOrder p) : Passes p done none (.behind p done)
  | reading {id : FuncId} {later : List FuncId} {f : Function} {body : List Stmt} {s : State}
      (horder : readingOrder p = done ++ id :: later)
      (hf : p.functions[id]? = some f) (hbody : f.body = some body)
      (hsteps : Steps (State.enter (.behind p done) id f) s) : Passes p done (some id) s

variable {done : List FuncId} {now : Option FuncId}

theorem Passes.placed (h : Passes p done now s) : Placed p s := by
  have hbehind := placed_behind p done
  cases h with
  | between h => exact hbehind
  | reading horder hf hbody hsteps => exact hsteps.placed ⟨hbehind.parents, hbehind.length⟩

theorem Passes.prefix_readingOrder (h : Passes p done now s) : done <+: readingOrder p := by
  cases h with
  | between h => exact h
  | reading horder _ _ _ => exact ⟨_, horder.symm⟩

theorem Passes.scope_eq (h : Passes p done now s) (hid : id ∈ done) :
    s.scopes[id]? = some (lastScope p id) := by
  have hbehind := scope_behind h.prefix_readingOrder hid
  cases h with
  | between h => exact hbehind
  | reading horder hf hbody hsteps => exact hsteps.scope_eq hbehind

theorem Passes.mem_of_encloses (h : Passes p done (some id) s) (hp : p.ParentsBefore)
    (hliterals : Assembly.ParentsOfLiterals p.functions) (hencloses : p.Encloses outer id) :
    outer ∈ done := by
  cases h with
  | reading horder _ _ _ => exact mem_done_of_encloses hp hliterals horder hencloses

/-! ## Searches -/

/-- The variable of a name in the scope that is kept of a function. -/
def State.keptVar? (s : State) (name : String) (id : FuncId) : Option (FuncId × Ty) :=
  ((s.scopes[id]?.getD {}).vars.get? name).map fun ty => (id, ty)

/-- The function, if a type of this name is in the scope that is kept of it. -/
def State.keptType? (s : State) (name : String) : FuncId → Option FuncId :=
  Option.guard fun id => (s.scopes[id]?.getD {}).types.contains name

/-- The function, if it has a type parameter of this name. -/
def State.ownTypeParam? (s : State) (name : String) : FuncId → Option FuncId :=
  Option.guard fun id => ((s.program.functions[id]?).map Function.typeParams).any fun params =>
    params.contains name

/-- The function, if it is a method of this type. -/
def State.ownReceiver? (s : State) (recv : TypeId) : FuncId → Option FuncId :=
  Option.guard fun id => (s.program.functions[id]?).bind Function.recvType == some recv

/-- The searches for a local variable, a local type and a type parameter, and for a method of
some type around the current function, come to an end by themselves. What they find is the answer
to the question. -/
structure State.SearchesEnd (s : State) : Prop where
  localVar? : ∀ name, ∃ found,
    s.program.Climbs (s.keptVar? name) (s.program.parent? s.frame.id) found ∧
    s.localVar? name = ((s.frame.scope.vars.get? name).map fun ty => (s.frame.id, ty)).or found
  isLocalType : ∀ name, ∃ found,
    s.program.Climbs (s.keptType? name) (s.program.parent? s.frame.id) found ∧
    s.isLocalType name = (s.frame.scope.types.contains name || found.isSome)
  isTypeParam : ∀ name, ∃ found, s.program.Climbs (s.ownTypeParam? name) (some s.frame.id) found ∧
    s.isTypeParam name = found.isSome
  isWithinReceiver : ∀ method recv,
    (s.program.functions[method]?).bind Function.recvType = some recv → ∃ found,
    s.program.Climbs (s.ownReceiver? recv) (some s.frame.id) found ∧
      s.isWithinReceiver method = found.isSome

theorem any_eq_isSome_findSome? {α : Type} (q : α → Bool) (xs : List α) :
    xs.any q = (xs.findSome? (Option.guard q)).isSome := by
  rw [List.findSome?_guard, Bool.eq_iff_iff, List.any_eq_true, List.find?_isSome]

/-- If every function comes behind the one around it, all searches end. -/
theorem searchesEnd (hp : s.program.ParentsBefore) : s.SearchesEnd where
  localVar? name := by
    refine ⟨_, hp.climbs_tail_chain (s.keptVar? name) s.frame.id, ?_⟩
    unfold State.localVar?
    cases s.frame.scope.vars.get? name <;> rfl
  isLocalType name := by
    refine ⟨_, hp.climbs_tail_chain (s.keptType? name) s.frame.id, ?_⟩
    rw [State.keptType?, ← any_eq_isSome_findSome?]
    rfl
  isTypeParam name := by
    refine ⟨_, hp.climbs_chain (s.ownTypeParam? name) s.frame.id, ?_⟩
    rw [State.ownTypeParam?, ← any_eq_isSome_findSome?, State.isTypeParam]
    congr 1
    funext id
    cases s.program.functions[id]? <;> rfl
  isWithinReceiver method recv hrecv := by
    refine ⟨_, hp.climbs_chain (s.ownReceiver? recv) s.frame.id, ?_⟩
    rw [State.ownReceiver?, ← any_eq_isSome_findSome?, State.isWithinReceiver, hrecv]

/-! ## Programs -/

/-- The functions of the program are read from the outside inwards. -/
structure ReadsInwards (p : Program) : Prop where
  /-- Every function comes behind the function around it, before and after all bodies
  have been read. -/
  parents : p.ParentsBefore ∧ (run p).1.ParentsBefore
  searches : ∀ {done : List FuncId} {now : Option FuncId} {s : State},
    Passes p done now s → s.SearchesEnd
  /-- When it is the turn of a function, its body is read from one state that is passed to another
  one, and then what has been found is kept. -/
  turns : ∀ {done later : List FuncId} {id : FuncId} {f : Function} {body : List Stmt},
    readingOrder p = done ++ id :: later → p.functions[id]? = some f → f.body = some body →
      Passes p done (some id) (State.enter (.behind p done) id f) ∧
        Passes p done (some id) ((readBody f body).after (State.enter (.behind p done) id f)) ∧
          readFunction (.behind p done) id =
            ((readBody f body).after (State.enter (.behind p done) id f)).close
  /-- Whatever is around a function has been read by then, and its scope is the one that it ended
  with. -/
  complete : ∀ {done : List FuncId} {id : FuncId} {s : State}, Passes p done (some id) s →
    ∀ outer, s.program.Encloses outer id → outer ∈ done ∧
      s.scopes[outer]? = some (lastScope p outer)
  /-- The scope of a function that has been read never changes again. -/
  kept : ∀ {done : List FuncId} {now : Option FuncId} {s : State}, Passes p done now s →
    ∀ id ∈ done, s.scopes[id]? = some (lastScope p id)

theorem Placed.parentsBefore (h : Placed p s) (hp : p.ParentsBefore) : s.program.ParentsBefore := by
  intro id outer hparent
  rw [h.parents] at hparent
  exact hp id outer hparent

theorem Placed.encloses_iff (h : Placed p s) :
    s.program.Encloses outer id ↔ p.Encloses outer id := by
  unfold Program.Encloses
  rw [h.parents]

end CallAtlas.Resolve

namespace CallAtlas

open Resolve

/-- **The scopes around a function literal are complete when it is read.** In a program that has
been put together from packages, whatever is wrong with their files, every function comes behind the
function around it, so the searches outwards end. Initializers are read first and the other
functions by their numbers; at every moment when a function literal is read, all functions around it
have been read, and their scopes are those that they ended with and never change again. -/
theorem Assembly.scopes_around_complete (module rootPath : String) (diagnostics : List Diagnostic)
    (packages : List LoadedPackage) :
    ReadsInwards (ofPackages module rootPath diagnostics packages).program := by
  have hparents := parentsBefore_ofPackages module rootPath diagnostics packages
  have hliterals := parentsOfLiterals_ofPackages module rootPath diagnostics packages
  generalize (ofPackages module rootPath diagnostics packages).program = p at hparents hliterals
  refine ⟨⟨hparents, (placed_behind p (readingOrder p)).parentsBefore hparents⟩, fun h => ?_,
    fun horder hf hbody => ?_, fun h outer hencloses => ?_, fun h id hid => h.scope_eq hid⟩
  · exact searchesEnd (h.placed.parentsBefore hparents)
  · have hlt := (List.getElem?_eq_some_iff.mp hf).1
    exact ⟨.reading horder hf hbody .refl, .reading horder hf hbody (acts_readBody _ _).1,
      readFunction_of_body ((function_behind _ hlt).trans hf) hbody⟩
  · have hdone := h.mem_of_encloses hparents hliterals (h.placed.encloses_iff.mp hencloses)
    exact ⟨hdone, h.scope_eq hdone⟩

/-- A variable of `main` is used in a literal in a literal, and the initializer has a
literal of its own. -/
def usesOuter : List LoadedPackage :=
  let literal (body : List Outline.Stmt) (closures : List Outline.Function) : Outline.Function :=
    ⟨"", 5, none, {}, [], some body, closures⟩
  [{ dir := "/w", importPath := "m", name := "m", vendored := false
     files := [⟨"/w/a.go", "a.go",
       { package := "m", vars := [⟨["_"], none, [.funcLit 0], 3⟩], initClosures := [literal [] []]
         functions := [⟨"main", 4, none, {}, [],
           some [.define ["x"] [.lit (.basic "int")], .expr (.funcLit 0)],
           [literal [.expr (.funcLit 0)] [literal [.define ["y"] [.ident "x"]] []]]⟩] }⟩] }]

def usesOuterProgram : Program := (Assembly.ofPackages "m" "m" [] usesOuter).program

theorem usesOuter_evaluated :
    readingOrder usesOuterProgram = [3, 0, 1] ++ 2 :: [4] ∧
      usesOuterProgram.parent? 1 = some 0 ∧ usesOuterProgram.parent? 2 = some 1 ∧
      (lastScope usesOuterProgram 0).vars.get? "x" = some (.basic "int") ∧
      ((usesOuterProgram.functions[2]?).bind fun f => f.body.map fun _ =>
        (State.enter (.behind usesOuterProgram [3, 0, 1]) 2 f).localVar? "x") =
          some (some (0, .basic "int")) := by
  decide +kernel

/-- The initializer is read before `main`, and the inner literal after both functions around it. -/
theorem Assembly.scopes_around_complete_usesOuter :
    readingOrder usesOuterProgram = [3, 0, 1] ++ 2 :: [4] ∧ usesOuterProgram.Encloses 0 2 ∧
      ∃ s, Passes usesOuterProgram [3, 0, 1] (some 2) s ∧ s.SearchesEnd ∧
        s.localVar? "x" = some (0, .basic "int") ∧
          s.scopes[0]? = some (lastScope usesOuterProgram 0) ∧
        (lastScope usesOuterProgram 0).vars.get? "x" = some (.basic "int") := by
  obtain ⟨horder, hliteral, hinner, hscope, hfound⟩ := usesOuter_evaluated
  have hencloses : usesOuterProgram.Encloses 0 2 := .tail (.single hliteral) hinner
  have hreads : ReadsInwards usesOuterProgram := scopes_around_complete "m" "m" [] usesOuter
  obtain ⟨f, hf, hfound⟩ := Option.bind_eq_some_iff.mp hfound
  obtain ⟨body, hbody, hfound⟩ := Option.map_eq_some_iff.mp hfound
  obtain ⟨hpasses, _⟩ := hreads.turns horder hf hbody
  have hcomplete := hreads.complete hpasses 0 (hpasses.placed.encloses_iff.mpr hencloses)
  exact ⟨horder, hencloses, _, hpasses, hreads.searches hpasses, hfound, hcomplete.2, hscope⟩

end CallAtlas
