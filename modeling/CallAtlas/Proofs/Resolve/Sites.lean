import CallAtlas.Proofs.Program.Initializers
import CallAtlas.Proofs.Resolve.Reading
import CallAtlas.Proofs.Resolve.Recording
import Mathlib.Data.List.TakeWhile

/-!
# The call sites of a function

A function is read once, so the sites in its facts are those that reading its body records. For the
calls of the body these are given by its sights. The initializer of a package calls those of the
imported packages before and the initializers written by the user behind.

Main statement: `Assembly.call_sites_match_calls`.
-/

set_option autoImplicit false

namespace CallAtlas

namespace Resolve

open Outline (Expr Stmt Call stmtsCalls)

variable {s t : State}

/-! ## What a call contributes -/

theorem answer_readExprs_cons (e : Expr) (rest : List Expr) (s : State) :
    (readExprs (e :: rest)).answer s =
      (readExpr e).answer s :: (readExprs rest).answer ((readExpr e).after s) := by
  rw [readExprs]
  rfl

theorem after_readExprs_cons (e : Expr) (rest : List Expr) (s : State) :
    (readExprs (e :: rest)).after s = (readExprs rest).after ((readExpr e).after s) := by
  rw [readExprs]
  rfl

theorem length_answer_readExprs (es : List Expr) (s : State) :
    ((readExprs es).answer s).length = es.length := by
  induction es generalizing s with
  | nil => rw [readExprs]; rfl
  | cons e rest ih => rw [answer_readExprs_cons, List.length_cons, ih, List.length_cons]

/-- The expressions are read from the left, each behind those before it. -/
theorem getElem?_answer_readExprs (es : List Expr) (s : State) (i : Nat) :
    ((readExprs es).answer s)[i]? =
      es[i]?.map fun e => (readExpr e).answer ((readExprs (es.take i)).after s) := by
  induction es generalizing s i with
  | nil =>
    rw [readExprs]
    rfl
  | cons e rest ih =>
    rw [answer_readExprs_cons]
    cases i with
    | zero =>
      rw [List.take_zero, readExprs]
      rfl
    | succ i =>
      rw [List.getElem?_cons_succ, List.getElem?_cons_succ, List.take_succ_cons, ih,
        after_readExprs_cons]

/-- What a call that is met in a state has to contribute: nothing if it is a conversion, a call of a
predeclared function or a call of something unknown, and else one site with its line and with the
origin of each argument, where the arguments are read from the left behind what is called. -/
structure State.Contributes (s : State) (c : Call) (site : Option CallSite) : Prop where
  eq_none_iff : site = none ↔
    s.Converts c ∨ s.CallsBuiltin c ∨ (readCallee s c.func).answer s = .unresolved
  line : ∀ x ∈ site, x.line = c.line
  length_args : ∀ x ∈ site, x.args.length = c.args.length
  args : ∀ x ∈ site, ∀ i, x.args[i]? = c.args[i]?.map fun e =>
    ((readExpr e).answer ((readExprs (c.args.take i)).after (s.atArgs c))).origin

theorem siteOf?_eq_none_iff {callee : Callee} {typeArgs : List Ty} {args : List Value}
    {line : Nat} : siteOf? callee typeArgs args line s = none ↔ callee = .unresolved := by
  cases callee <;> simp [siteOf?]

theorem line_args_of_siteOf? {callee : Callee} {typeArgs : List Ty} {args : List Value} {line : Nat}
    {site : CallSite} (h : siteOf? callee typeArgs args line s = some site) :
    site.line = line ∧ site.args = args.map Value.origin := by
  cases callee <;> cases h <;> exact ⟨rfl, rfl⟩

theorem contributes_site? (s : State) (c : Call) : s.Contributes c (Sight.site? (.call s c)) := by
  by_cases hno : s.Converts c ∨ s.CallsBuiltin c
  · have hnone : Sight.site? (.call s c) = none := if_pos hno
    rw [hnone]
    refine ⟨⟨fun _ => ?_, fun _ => rfl⟩, by simp, by simp, by simp⟩
    exact hno.imp_right Or.inl
  · have hsite : Sight.site? (.call s c) = siteOf? ((readCallee s c.func).answer s) c.typeArgs
        (s.argValues c) c.line ((setLine c.line).after ((readExprs c.args).after (s.atArgs c))) :=
      if_neg hno
    rw [hsite]
    refine ⟨?_, fun x hx => (line_args_of_siteOf? hx).1, fun x hx => ?_, fun x hx i => ?_⟩
    · rw [siteOf?_eq_none_iff, ← or_assoc]
      exact ⟨Or.inr, fun h => h.resolve_left hno⟩
    · rw [(line_args_of_siteOf? hx).2, List.length_map, State.argValues, length_answer_readExprs]
    · rw [(line_args_of_siteOf? hx).2, List.getElem?_map, State.argValues,
        getElem?_answer_readExprs, Option.map_map]
      rfl

/-- On no line are there more sites than calls. -/
theorem countP_sitesOf_le (sights : List Sight) (line : Nat) :
    (sitesOf sights).countP (·.line == line) ≤
      (sights.flatMap Sight.calls).countP (·.line == line) := by
  induction sights with
  | nil => exact Nat.le_refl _
  | cons sight rest ih =>
    rw [← List.singleton_append, sitesOf_append, List.flatMap_append, List.countP_append,
      List.countP_append, sitesOf_singleton]
    refine Nat.add_le_add ?_ ih
    cases sight with
    | typeArg s base subscript h => exact Nat.zero_le _
    | call s c =>
      cases hsite : Sight.site? (.call s c) with
      | none => exact Nat.zero_le _
      | some site =>
        have hline := (contributes_site? s c).line site hsite
        simp [Sight.calls, hline]

/-! ## Bodies -/

/-- The call of an initializer. -/
def initSite (line : Nat) (id : FuncId) : CallSite := { line, target := .static id }

theorem records_callInits (ids : List FuncId) (s : State) :
    Records s (callInits ids) (ids.map (initSite s.frame.line)) := by
  induction ids generalizing s with
  | nil => exact .pure _
  | cons id rest ih => exact (records_addSite (.static id) none [] s).bind (ih _)

theorem importedInits_congr {p q : Program} (h : q.packages = p.packages) (f : Function) :
    importedInits q f = importedInits p f := by
  unfold importedInits Program.package?
  rw [h]

theorem ownInits_congr {p q : Program} (h : q.packages = p.packages) (f : Function) :
    ownInits q f = ownInits p f := by
  unfold ownInits Program.package?
  rw [h]

/-- What comes before the statements of a body. -/
def openBody (p : Program) (f : Function) : M Unit := do
  checkTypes (f.signature.params.map Outline.Param.ty ++ f.resultTypes)
  callInits (importedInits p f)

/-- A body is opened, its statements are read, and the initializers of the user are called. -/
theorem run_readBody {p : Program} {f : Function} (body : List Stmt)
    (hpackages : s.program.packages = p.packages) :
    (readBody f body).after s =
      (callInits (ownInits p f)).after ((readStmts body).after ((openBody p f).after s)) := by
  -- the packages are looked up when the types of the function have been checked
  have hchecked := (acts_checkTypes (s := s)
    (f.signature.params.map Outline.Param.ty ++ f.resultTypes)).1.fixes Step.packages_eq
  have himported := importedInits_congr (hchecked.trans hpackages) f
  have hown := ownInits_congr (hchecked.trans hpackages) f
  unfold readBody openBody
  rw [← himported, ← hown]
  rfl

/-- The sites of a body: the calls of the imported initializers, those of its own calls, and those
of the initializers of the user. -/
theorem records_readBody {p : Program} {id : FuncId} {f : Function} (body : List Stmt)
    (hpackages : s.program.packages = p.packages) (hframe : s.frame = frameOf id f) :
    ((readBody f body).after s).frame.facts.sites =
      (importedInits p f).map (initSite f.line) ++
        sitesOf (stmtsSights body ((openBody p f).after s)) ++
          (ownInits p f).map (initSite
            ((readStmts body).after ((openBody p f).after s)).frame.line) := by
  have hline : ((checkTypes (f.signature.params.map Outline.Param.ty ++ f.resultTypes)).after
      s).frame.line = f.line := by
    rw [(reports_checkTypes _).frame, hframe]
    rfl
  have hopen : Records s (openBody p f) ((importedInits p f).map (initSite f.line)) := by
    refine (reports_checkTypes _).mute.silent.bind ?_
    have h := records_callInits (importedInits p f)
      ((checkTypes (f.signature.params.map Outline.Param.ty ++ f.resultTypes)).after s)
    rwa [hline] at h
  have hstart : s.frame.facts.sites = [] := by
    rw [hframe]
    rfl
  have hbody := records_readStmts body ((openBody p f).after s)
  have hclose := records_callInits (ownInits p f) ((readStmts body).after ((openBody p f).after s))
  unfold Records at hopen hbody hclose
  rw [run_readBody body hpackages, hclose, hbody, hopen, hstart, List.nil_append]

/-! ## Runs -/

/-- The functions whose bodies are read before that of `id`. -/
def readBefore (p : Program) (id : FuncId) : List FuncId := (readingOrder p).takeWhile (· != id)

/-- The state in which the statements of a function are read. -/
def State.atBody (p : Program) (id : FuncId) (f : Function) : State :=
  (openBody p f).after { (readBefore p id).foldl readFunction (.start p) with
    frame := frameOf id f }

/-- Every function is read once. -/
theorem readingOrder_perm (p : Program) : (readingOrder p).Perm (List.range p.functions.length) :=
  List.filter_append_perm _ _

theorem nodup_readingOrder (p : Program) : (readingOrder p).Nodup :=
  (readingOrder_perm p).nodup_iff.mpr List.nodup_range

/-- The reading order is cut at a function. -/
theorem readingOrder_eq {p : Program} {id : FuncId} (h : id < p.functions.length) :
    ∃ later, readingOrder p = readBefore p id ++ id :: later ∧ id ∉ later := by
  have hmem : id ∈ readingOrder p := (readingOrder_perm p).mem_iff.mpr (List.mem_range.mpr h)
  have hnodup := nodup_readingOrder p
  have hcut : readBefore p id ++ (readingOrder p).dropWhile (· != id) = readingOrder p :=
    List.takeWhile_append_dropWhile
  cases hlater : (readingOrder p).dropWhile (· != id) with
  | nil =>
    have hall := List.dropWhile_eq_nil_iff.mp hlater id hmem
    simp at hall
  | cons first later =>
    have hfirst : first = id := by
      have hhead := List.head?_dropWhile_not (· != id) (readingOrder p)
      rw [hlater] at hhead
      simpa using hhead
    rw [hlater, hfirst] at hcut
    refine ⟨later, hcut.symm, fun hagain => ?_⟩
    rw [← hcut, List.nodup_append] at hnodup
    exact (List.nodup_cons.mp hnodup.2.1).1 hagain

/-- A function is added with its scope. -/
theorem Step.scopes_length (h : Step s t) (hs : s.scopes.length = s.program.functions.length) :
    t.scopes.length = t.program.functions.length := by
  cases h with
  | function f facts _ _ _ _ => simp [hs]
  | _ => exact hs

/-- Facts are added behind those that are there. -/
theorem Step.facts_grow (h : Step s t) : s.program.facts <+: t.program.facts := by
  cases h with
  | function f facts _ _ _ _ => exact List.prefix_append _ _
  | _ => exact List.prefix_rfl

theorem Steps.facts_grow (h : Steps s t) : s.program.facts <+: t.program.facts :=
  h.preserves (P := fun t => s.program.facts <+: t.program.facts)
    (fun hstep hs => hs.trans hstep.facts_grow) List.prefix_rfl

/-- The functions and the packages of the program are there, and every function has facts. -/
structure Keeps (p : Program) (s : State) : Prop where
  functions : p.functions <+: s.program.functions
  packages : s.program.packages = p.packages
  length : s.program.facts.length = s.program.functions.length

theorem Step.keeps {p : Program} (h : Step s t) (hs : Keeps p s) : Keeps p t := by
  refine ⟨hs.functions.trans h.functions_prefix, h.packages_eq.trans hs.packages, ?_⟩
  cases h with
  | function f facts _ _ _ _ => simp [hs.length]
  | _ => exact hs.length

theorem keeps_foldl_readFunction (p : Program) (ids : List FuncId) :
    Keeps p (ids.foldl readFunction (.start p)) :=
  invariant_foldl_readFunction (I := Keeps p) (J := Keeps p)
    (fun _ _ hs => ⟨hs.functions, hs.packages, hs.length⟩) Step.keeps
    (fun hs => ⟨hs.functions, hs.packages, (List.length_set ..).trans hs.length⟩) ids
    ⟨List.prefix_rfl, rfl, List.length_replicate ..⟩

/-- A body is read in a frame of its own, and what has been found is kept. -/
theorem readFunction_of_body {id : FuncId} {f : Function} {body : List Stmt}
    (hf : s.program.functions[id]? = some f) (hbody : f.body = some body) :
    readFunction s id = ((readBody f body).after (s.enter id f)).close := by
  unfold readFunction
  rw [hf]
  dsimp only
  rw [hbody]

theorem readFunction_of_no_body {id : FuncId}
    (h : (s.program.functions[id]?).bind Function.body = none) : readFunction s id = s := by
  unfold readFunction
  cases hf : s.program.functions[id]? with
  | none => rfl
  | some f =>
    have hbody : f.body = none := by rwa [hf] at h
    dsimp only
    rw [hbody]

/-- Reading a function does nothing, or takes steps in a frame of its own and keeps what it has
found. -/
theorem readFunction_cases (s : State) (id : FuncId) : readFunction s id = s ∨
    ∃ f t, Steps (s.enter id f) t ∧ t.frame.id = id ∧ readFunction s id = t.close := by
  cases hbody : (s.program.functions[id]?).bind Function.body with
  | none => exact Or.inl (readFunction_of_no_body hbody)
  | some body =>
    obtain ⟨f, hf, hbody⟩ := Option.bind_eq_some_iff.mp hbody
    have hreads := (acts_readBody (s := s.enter id f) f body).1
    exact Or.inr ⟨f, _, hreads, hreads.frame_id, readFunction_of_body hf hbody⟩

/-- Reading a body leaves the facts of all other functions. -/
theorem facts_readFunction_of_ne {id other : FuncId} (hne : other ≠ id) {facts : Facts}
    (h : s.program.facts[id]? = some facts) :
    (readFunction s other).program.facts[id]? = some facts := by
  obtain hread | ⟨f, t, hsteps, hid, hread⟩ := readFunction_cases s other
  · rwa [hread]
  · rw [hread]
    simp only [State.close, hid, List.getElem?_set_ne hne]
    exact getElem?_of_extends hsteps.facts_grow h

theorem facts_foldl_readFunction {id : FuncId} {ids : List FuncId} (hids : id ∉ ids) {facts : Facts}
    (h : s.program.facts[id]? = some facts) :
    (ids.foldl readFunction s).program.facts[id]? = some facts :=
  List.foldlRecOn (motive := fun s : State => s.program.facts[id]? = some facts) ids readFunction h
    fun _ hs _ hother => facts_readFunction_of_ne (ne_of_mem_of_not_mem hother hids) hs

/-- **Main statement**: the facts of a function are those that are found when its body is read. -/
theorem factsOf_run {p : Program} {id : FuncId} {f : Function} {body : List Stmt}
    (hf : p.functions[id]? = some f) (hbody : f.body = some body) :
    (run p).1.factsOf id =
      ((readBody f body).after (State.enter ((readBefore p id).foldl readFunction (.start p)) id
        f)).frame.facts := by
  have hlt : id < p.functions.length := (List.getElem?_eq_some_iff.mp hf).1
  obtain ⟨later, horder, hlater⟩ := readingOrder_eq hlt
  let s := (readBefore p id).foldl readFunction (.start p)
  have hkeeps : Keeps p s := keeps_foldl_readFunction p (readBefore p id)
  have hfunction : s.program.functions[id]? = some f := getElem?_of_extends hkeeps.functions hf
  have hread : (readFunction s id).program.facts[id]? =
      some ((readBody f body).after (s.enter id f)).frame.facts := by
    have hreads := (acts_readBody (s := s.enter id f) f body).1
    have hid : ((readBody f body).after (s.enter id f)).frame.id = id := hreads.frame_id
    rw [readFunction_of_body hfunction hbody]
    simp only [State.close, hid]
    refine List.getElem?_set_self (Nat.lt_of_lt_of_le ?_ hreads.facts_grow.length_le)
    exact hkeeps.length ▸ Nat.lt_of_lt_of_le hlt hkeeps.functions.length_le
  have hend : (run p).1.facts[id]? = some ((readBody f body).after (s.enter id f)).frame.facts := by
    show ((readingOrder p).foldl readFunction (.start p)).program.facts[id]? = _
    rw [horder, List.foldl_append, List.foldl_cons]
    exact facts_foldl_readFunction hlater hread
  rw [Program.factsOf, hend, Option.getD_some]

end Resolve

/-! ## Programs -/

open Resolve Outline

/-- The sites of a function with a body match the calls of the body. The sights of the body list its
calls in order, those in subscripts that give type arguments to a type or to a generic function
apart. The sites are those that the listed calls contribute, in order, and an initializer has in
addition the calls of other initializers, before and behind; another function has none of these. -/
structure Program.SitesMatch (p : Program) (id : FuncId) (f : Function) (body : List Stmt) :
    Prop where
  calls : (stmtsSights body (State.atBody p id f)).flatMap Sight.calls = stmtsCalls body
  sites : ((run p).1.factsOf id).sites =
    (importedInits p f).map (initSite f.line) ++
      (stmtsSights body (State.atBody p id f)).filterMap Sight.site? ++
        (ownInits p f).map (initSite ((readStmts body).after (State.atBody p id f)).frame.line)
  contributes : ∀ s c, .call s c ∈ stmtsSights body (State.atBody p id f) →
    s.Contributes c (Sight.site? (.call s c))
  count : ∀ line,
    ((stmtsSights body (State.atBody p id f)).filterMap Sight.site?).countP (·.line == line) ≤
      (stmtsCalls body).countP (·.line == line)
  importedOnce : (importedInits p f).Nodup
  ownOnce : (ownInits p f).Nodup
  plain : f.kind ≠ .initializer → importedInits p f = [] ∧ ownInits p f = []

/-- **No call is recorded twice, and none is lost.** In a program that has been put together,
whatever is wrong with its files, the sites of every function match the calls of its body: a call
that is met contributes one site, with its line and the origin of each argument in order, unless it
is a conversion or a call of something predeclared or unknown. So on no line are there more sites of
calls than calls. The initializer of a package calls that of each loaded package it imports once,
before, and each initializer that the user has written once, behind. -/
theorem Assembly.call_sites_match_calls (module rootPath : String) (diagnostics : List Diagnostic)
    (packages : List LoadedPackage) {id : FuncId} {f : Function} {body : List Stmt}
    (hf : (ofPackages module rootPath diagnostics packages).program.functions[id]? = some f)
    (hbody : f.body = some body) :
    (ofPackages module rootPath diagnostics packages).program.SitesMatch id f body := by
  generalize hp : (ofPackages module rootPath diagnostics packages).program = p at hf
  have hcalls : (stmtsSights body (State.atBody p id f)).flatMap Sight.calls = stmtsCalls body :=
    flatMap_calls_stmtsSights body _
  have hinitializers : p.Initializers :=
    hp ▸ initializers_ofPackages module rootPath diagnostics packages
  refine ⟨hcalls, ?_, fun s c _ => contributes_site? s c, fun line => ?_, ?_, ?_, fun hkind => ?_⟩
  · rw [factsOf_run hf hbody]
    exact records_readBody body (keeps_foldl_readFunction p (readBefore p id)).packages rfl
  · rw [← hcalls]
    exact countP_sitesOf_le _ line
  · unfold importedInits
    split
    · exact hinitializers.nodup_inits _
    · exact List.nodup_nil
  · unfold ownInits
    split
    · exact Program.nodup_of_package? hinitializers.userInits _
    · exact List.nodup_nil
  · rw [importedInits, ownInits, if_neg (by simpa using hkind), if_neg (by simpa using hkind)]
    exact ⟨rfl, rfl⟩

/-- The variable `x` of a package with two initializers and an import is set by nested calls: an
argument of `f` is a conversion of the result of `g`, another one calls that result, which is no
function, and the last one is a call of a generic function whose type argument holds a call. -/
def nestedCalls : List LoadedPackage :=
  let define (name : String) (typeParams : List String) : Outline.Function :=
    ⟨name, 1, none, { results := [⟨none, .basic "int"⟩] }, typeParams, some [], []⟩
  let g : Expr := .call (.ident "g") [] [] 4
  [{ dir := "/w", importPath := "m", name := "m", vendored := false
     files := [⟨"/w/a.go", "a.go",
       { package := "m", imports := [⟨none, "m/u", 2⟩]
         types := [⟨"T", 3, .defined (.basic "int"), false⟩]
         vars := [⟨["x"], none, [.call (.ident "f")
           [.call (.ident "T") [g] [] 5, .call g [] [] 5,
            .call (.index (.ident "h") g (.basic "int")) [] [] 6] [] 5], 5⟩]
         functions := [define "f" [], define "g" [], define "h" ["P"], define "init" [],
           define "init" []] }⟩] },
   { dir := "/w/u", importPath := "m/u", name := "u", vendored := false
     files := [⟨"/w/u/a.go", "a.go", { package := "u" }⟩] }]

theorem Assembly.call_sites_match_calls_nestedCalls :
    ∃ f body, (ofPackages "m" "m" [] nestedCalls).program.functions[5]? = some f ∧
      f.body = some body ∧ (stmtsCalls body).map (·.line) = [4, 5, 4, 5, 4, 6, 5] ∧
      ((run (ofPackages "m" "m" [] nestedCalls).program).1.factsOf 5).sites.map
        (fun site => (site.line, site.target, site.args.length)) =
        [(0, .static 6, 0), (4, .static 1, 0), (4, .static 1, 0), (6, .static 7, 0),
          (5, .static 0, 3), (5, .static 3, 0), (5, .static 4, 0)] ∧
      (ofPackages "m" "m" [] nestedCalls).program.SitesMatch 5 f body := by
  have hlines : (((ofPackages "m" "m" [] nestedCalls).program.functions[5]?).bind
      CallAtlas.Function.body).map (fun body => (stmtsCalls body).map (·.line)) =
      some [4, 5, 4, 5, 4, 6, 5] := by decide +kernel
  obtain ⟨body, hbind, hlines⟩ := Option.map_eq_some_iff.mp hlines
  obtain ⟨f, hf, hbody⟩ := Option.bind_eq_some_iff.mp hbind
  exact ⟨f, body, hf, hbody, hlines, by decide +kernel,
    call_sites_match_calls "m" "m" [] nestedCalls hf hbody⟩

end CallAtlas
