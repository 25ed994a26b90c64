import CallAtlas.Outline.File
import CallAtlas.Proofs.Outline.Lowered

/-!
# The calls of a file

The functions of a file are outlined in their order, and so are the function literals in the values
of its variables, which belong to the initializer of the package. A method whose receiver cannot be
read is left out. The rest of the file has no functions.

Main statement: every outline mirrors its function, down to the innermost literal. So a body keeps
all of its calls exactly if none of them stands in a place that lowering drops.
-/

set_option autoImplicit false

namespace CallAtlas.Outline

open Source (Body exprsSpots callsOf lostCalls)

/-- The function that a declaration declares, if it is outlined. -/
def outlined? : Source.Decl → Option Source.FuncDecl
  | .func f =>
    match f.receiver with
    | none => some f
    | some r => (receiverOf r).map fun _ => f
  | _ => none

/-- The function literals in the values of the variables that a declaration declares. -/
def initLiterals : Source.Decl → List Body
  | .stmt (.var _ _ _ values) => (exprsSpots values).filterMap Source.Spot.literal?
  | _ => []

/-- The outline of a declared function mirrors it; without a body it has none. -/
structure MirrorsDecl (d : Source.FuncDecl) (f : Function) : Prop where
  name : f.name = d.name
  body : ∀ stmts, d.body = some stmts → Mirrors ⟨d.pos.line, stmts⟩ f
  none : d.body = none → f.body = none ∧ f.closures = []

/-- The body of a function is lowered where its type parameters are known. -/
theorem functionOf_lowered (c : Context) {d : Source.FuncDecl} (receiver : Option Receiver)
    {stmts : List Source.Stmt} (h : d.body = some stmts) :
    ∃ inner, (functionOf c d receiver).body = some ((lowerStmts inner stmts).run []).1 ∧
      (functionOf c d receiver).closures = ((lowerStmts inner stmts).run []).2 := by
  simp only [functionOf, h, Option.map_some, Option.getD_some]
  exact ⟨_, rfl, rfl⟩

theorem mirrorsDecl_functionOf (c : Context) (d : Source.FuncDecl) (receiver : Option Receiver) :
    MirrorsDecl d (functionOf c d receiver) where
  name := rfl
  body stmts hstmts := by
    obtain ⟨inner, hbody, hclosures⟩ := functionOf_lowered c receiver hstmts
    exact mirrors_of_lowers (lowers_stmts inner stmts) rfl hbody hclosures
  none hnone := by simp [functionOf, hnone]

/-- The outline so far mirrors the declarations that have been taken in. -/
structure Tracks (decls : List Source.Decl) (p : Progress) : Prop where
  functions : List.Forall₂ MirrorsDecl (decls.filterMap outlined?) p.file.functions
  literals : List.Forall₂ Mirrors (decls.flatMap initLiterals) p.file.initClosures

/-- A declaration without functions and values. -/
theorem Tracks.keep {decls : List Source.Decl} {p q : Progress} (h : Tracks decls p)
    {d : Source.Decl} (houtlined : outlined? d = none) (hliterals : initLiterals d = [])
    (hfunctions : q.file.functions = p.file.functions)
    (hclosures : q.file.initClosures = p.file.initClosures) : Tracks (decls ++ [d]) q where
  functions := by
    rw [List.filterMap_append, hfunctions]
    simpa [houtlined] using h.functions
  literals := by
    rw [List.flatMap_append, hclosures]
    simpa [hliterals] using h.literals

/-- A declaration of a function. -/
theorem Tracks.function {decls : List Source.Decl} {p : Progress} (h : Tracks decls p)
    {f : Source.FuncDecl} (receiver : Option Receiver) (houtlined : outlined? (.func f) = some f) :
    Tracks (decls ++ [.func f]) { p with file := { p.file with
      functions := p.file.functions ++ [functionOf p.context f receiver] } } where
  functions := by
    rw [List.filterMap_append]
    refine List.rel_append h.functions ?_
    simpa [houtlined] using mirrorsDecl_functionOf p.context f receiver
  literals := by
    rw [List.flatMap_append]
    simpa [initLiterals] using h.literals

theorem Tracks.add {decls : List Source.Decl} {p : Progress} (h : Tracks decls p)
    (d : Source.Decl) : Tracks (decls ++ [d]) (p.add d) := by
  cases d with
  | package name => exact h.keep rfl rfl rfl rfl
  | imports specs => exact h.keep rfl rfl rfl rfl
  | func f =>
    cases hreceiver : f.receiver with
    | none =>
      have houtlined : outlined? (.func f) = some f := by simp [outlined?, hreceiver]
      simpa only [Progress.add, hreceiver] using h.function none houtlined
    | some r =>
      cases hr : receiverOf r with
      | none =>
        have houtlined : outlined? (.func f) = none := by simp [outlined?, hreceiver, hr]
        simpa only [Progress.add, hreceiver, hr] using h.keep houtlined rfl rfl rfl
      | some receiver =>
        have houtlined : outlined? (.func f) = some f := by simp [outlined?, hreceiver, hr]
        simpa only [Progress.add, hreceiver, hr] using h.function (some receiver) houtlined
  | stmt s =>
    cases s with
    | var line names ty values =>
      obtain ⟨added, _, heq, hadds, _⟩ := lowers_exprs p.context values p.file.initClosures
      have hclosures : (p.add (.stmt (.var line names ty values))).file.initClosures =
          p.file.initClosures ++ added := heq
      have hfunctions : (p.add (.stmt (.var line names ty values))).file.functions =
          p.file.functions := rfl
      have hnone : outlined? (.stmt (.var line names ty values)) = none := rfl
      refine ⟨?_, ?_⟩
      · rw [List.filterMap_append, hfunctions]
        simpa [hnone] using h.functions
      · rw [List.flatMap_append, hclosures]
        refine List.rel_append h.literals ?_
        simpa [initLiterals] using hadds.mirrors
    | _ => exact h.keep rfl rfl rfl rfl

theorem tracks_foldl (decls : List Source.Decl) {before : List Source.Decl} {p : Progress}
    (h : Tracks before p) : Tracks (before ++ decls) (decls.foldl Progress.add p) := by
  induction decls generalizing before p with
  | nil => rwa [List.append_nil]
  | cons d rest ih =>
    have hrest := ih (h.add d)
    rwa [List.append_assoc] at hrest

/-- **Main statement**: the outline of a file without syntax errors mirrors its functions and
methods in their order, and the function literals in the values of its variables. -/
theorem outline_mirrors_source {package : String} {packageNames : Table String String}
    {source : String} {file : File} (h : ofSource? package packageNames source = some file) :
    ∃ decls, Source.parse? source = some decls ∧
      List.Forall₂ MirrorsDecl (decls.filterMap outlined?) file.functions ∧
      List.Forall₂ Mirrors (decls.flatMap initLiterals) file.initClosures := by
  obtain ⟨decls, hparse, rfl⟩ := Option.map_eq_some_iff.mp h
  have hstart : Tracks [] { context := { package, packageNames } } := ⟨.nil, .nil⟩
  have htracks := tracks_foldl decls hstart
  exact ⟨decls, hparse, htracks.functions, htracks.literals⟩

/-! ## A call in the bound of a slice -/

def sliceBound : String :=
  "package main\n\nfunc g() int \x7b\n\treturn 0\n\x7d\n\n" ++
    "func main() \x7b\n\tvar s []int\n\t_ = s[g():]\n\x7d\n"

theorem sliceBound_evaluated :
    ((Source.parse? sliceBound).bind fun decls =>
        (decls.filterMap outlined?)[1]?.map fun d => (d.name, d.body.map callsOf)) =
      some ("main", some [.call 9 0]) ∧
    ((ofSource? "example.com/m" ∅ sliceBound).bind fun file =>
        file.functions[1]?.map fun f => (f.name, f.body.map stmtsMarks)) =
      some ("main", some []) := by
  decide +kernel

theorem outline_mirrors_source_sliceBound : ∃ decls file, Source.parse? sliceBound = some decls ∧
    ofSource? "example.com/m" ∅ sliceBound = some file ∧
    List.Forall₂ MirrorsDecl (decls.filterMap outlined?) file.functions := by
  obtain ⟨file, hfile, _⟩ := Option.bind_eq_some_iff.mp sliceBound_evaluated.2
  obtain ⟨decls, hparse, hfunctions, _⟩ := outline_mirrors_source hfile
  exact ⟨decls, file, hparse, hfile, hfunctions⟩

/-- The call in the bound of the slice is not in the outline of `main`. -/
theorem sliceBound_loses_call : ∃ decls file, Source.parse? sliceBound = some decls ∧
    ofSource? "example.com/m" ∅ sliceBound = some file ∧
    ∃ d f stmts lowered, (decls.filterMap outlined?)[1]? = some d ∧ file.functions[1]? = some f ∧
      d.body = some stmts ∧ f.body = some lowered ∧ ¬ KeepsCalls stmts lowered := by
  obtain ⟨hsource, houtline⟩ := sliceBound_evaluated
  obtain ⟨decls, hparse, hd⟩ := Option.bind_eq_some_iff.mp hsource
  obtain ⟨file, hfile, hf⟩ := Option.bind_eq_some_iff.mp houtline
  obtain ⟨d, hd, hcalls⟩ := Option.map_eq_some_iff.mp hd
  obtain ⟨f, hf, hmarks⟩ := Option.map_eq_some_iff.mp hf
  obtain ⟨stmts, hstmts, hcalls⟩ := Option.map_eq_some_iff.mp (Prod.mk.inj hcalls).2
  obtain ⟨lowered, hlowered, hmarks⟩ := Option.map_eq_some_iff.mp (Prod.mk.inj hmarks).2
  refine ⟨decls, file, hparse, hfile, d, f, stmts, lowered, hd, hf, hstmts, hlowered,
    fun hkeeps => ?_⟩
  have hlength := hkeeps.length_eq
  rw [hmarks, hcalls] at hlength
  cases hlength

end CallAtlas.Outline
