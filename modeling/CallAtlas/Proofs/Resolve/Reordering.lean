import CallAtlas.Proofs.Program.Ground
import CallAtlas.Proofs.Program.Rearranged
import CallAtlas.Proofs.Resolve.Versions

/-!
# The order of the variables of a package

The type of a variable of a package is found when its declaration is read, and the declarations are
read in their order. So where the variables of a package stand matters to the calls by name only
through declarations that refer to each other's variables: a method is selected on a variable if its
type is known by then.

Main statements: `Assembly.rearranged_same_static_calls`, and `Assembly.usedBefore_loses_call`,
where a declaration is read before the one that it refers to.
-/

set_option autoImplicit false

namespace CallAtlas

open Outline (GlobalVar Stmt stmtsParts unlinedStmts)

/-- The names that are selected in the bodies are identifiers. -/
def Program.Spelled (p : Program) : Prop :=
  ∀ f ∈ p.functions, ∀ body ∈ f.body, Outline.Spelled (stmtsParts body)

instance (p : Program) : Decidable p.Spelled :=
  inferInstanceAs (Decidable (∀ f ∈ p.functions, ∀ body ∈ f.body,
    Outline.Spelled (stmtsParts body)))

namespace Resolve

variable {b p p' : Program} {s s' : State} {f : Function} {stmts stmts' : List Stmt}

/-! ## Versions of a body -/

theorem spelled_of_unlined (h : unlinedStmts stmts = unlinedStmts stmts')
    (hspelled : Outline.Spelled (stmtsParts stmts)) : Outline.Spelled (stmtsParts stmts') := by
  unfold Outline.Spelled at hspelled ⊢
  rwa [← Outline.selections_unlinedStmts, ← h, Outline.selections_unlinedStmts]

/-- Bodies that differ in lines are read to the same effect. -/
theorem follow_of_unlined (hb : Ground b) (h : Alike b {} s s')
    (hstmts : unlinedStmts stmts = unlinedStmts stmts')
    (hspelled : Outline.Spelled (stmtsParts stmts)) :
    Follow b s s' (readStmts stmts) (readStmts stmts') fun _ _ => True := by
  have hleft := follow_readStmts hb stmts (spelled_clear hspelled) (.of_view h.left h.left rfl)
  have hright := follow_readStmts hb stmts'
    (spelled_clear (spelled_of_unlined hstmts hspelled)) h.symm
  rw [← hstmts] at hright
  exact .trans hleft hright.symm

theorem follow_bodies (hb : Ground b) (h : Alike b {} s s') (hwithin : s.view.Within f)
    (hbodies : f.Bodies stmts stmts') (hspelled : Outline.Spelled (stmtsParts stmts)) :
    Follow b s s' (readStmts stmts) (readStmts stmts') fun _ _ => True := by
  cases hbodies with
  | lines hstmts => exact follow_of_unlined hb h hstmts hspelled
  | @order own vars vars' hkind hown hvars hvars' hrearranged =>
    have hsets : s.view.Sets own := by
      refine ⟨hwithin.isInitializer.trans (beq_iff_eq.mpr hkind), fun {name} hname => hown name ?_⟩
      rwa [hwithin.imports, hwithin.pkg] at hname
    have hspelledVars : ∀ v ∈ vars, Outline.Spelled (Outline.exprsParts v.values) := by
      rw [← spelled_stmts_iff, ← hvars]
      unfold Outline.Spelled
      rwa [Outline.selections_unlinedStmts]
    have hspelled' : Outline.Spelled (stmtsParts stmts') := by
      unfold Outline.Spelled
      rw [← Outline.selections_unlinedStmts, hvars']
      exact spelled_stmts_iff.mpr fun v hv => hspelledVars v (hrearranged.perm.subset hv)
    have hself : Alike b {} s s := .of_view h.left h.left rfl
    have hleft := follow_readStmts hb stmts (spelled_clear hspelled) hself
    have hright := follow_readStmts hb stmts' (spelled_clear hspelled') h.symm
    rw [hvars] at hleft
    rw [hvars'] at hright
    exact hleft.trans ((follow_rearranged hb hself hsets hrearranged hspelledVars).trans
      hright.symm)

/-! ## Versions of a program -/

theorem versions_of_reordered {a a' : Assembly} (h : a.Reordered a') (hb : Ground a.program.faces)
    (hspelled : a.program.Spelled) : Versions a.program.faces a.program a'.program where
  left := rfl
  right := by
    have hrest : { a.program with functions := [] } = { a'.program with functions := [] } :=
      h.program
    have hfaces : a.program.functions.map Function.face = a'.program.functions.map Function.face :=
      map_face_of_reordered h.functions
    show { ({ a'.program with functions := [] } : Program) with
      functions := a'.program.functions.map Function.face } = _
    rw [← hrest, ← hfaces]
    rfl
  bodies {id} {f} {f'} hf hf' := by
    obtain ⟨hlt, hget⟩ := List.getElem?_eq_some_iff.mp hf
    obtain ⟨hlt', hget'⟩ := List.getElem?_eq_some_iff.mp hf'
    have hfunction := List.Forall₂.get h.functions hlt hlt'
    rw [List.get_eq_getElem, List.get_eq_getElem, hget, hget'] at hfunction
    have hbodies := hfunction.bodies
    have hin := hspelled f (List.mem_of_getElem? hf)
    generalize f.body = body at hbodies hin ⊢
    generalize f'.body = body' at hbodies ⊢
    cases hbodies with
    | none => exact .none
    | some hstmts => exact .some fun hs hwithin => follow_bodies hb hs hwithin hstmts (hin _ rfl)

end Resolve

/-- **Independent declarations can change places.** Packages with distinct import paths, in which
neither brackets nor the signs of a receiver occur, and with identifiers as names are put together
in two versions: the variables of a package are declared in another order, also across its files,
in which declarations that refer to each other's variables, and the function literals, stand as
before. When the bodies have been read, the two programs have the same calls by name, whatever is
wrong with the files. -/
theorem Assembly.rearranged_same_static_calls (module rootPath : String)
    (diagnostics diagnostics' : List Diagnostic) (packages packages' : List LoadedPackage)
    (hrearranged : List.Forall₂ LoadedPackage.Rearranged packages packages')
    (hpackages : ∀ pkg ∈ packages, pkg.Nameable)
    (hpaths : (packages.map LoadedPackage.importPath).Nodup)
    (hbrackets : ∀ pkg ∈ packages, '[' ∉ pkg.importPath.toList)
    (hspelled : (ofPackages module rootPath diagnostics packages).program.Spelled) :
    ∀ call,
      call ∈ (Resolve.run
        (ofPackages module rootPath diagnostics packages).program).1.staticCalls ↔
      call ∈ (Resolve.run
        (ofPackages module rootPath diagnostics' packages').program).1.staticCalls := by
  have hb := Resolve.ground_ofPackages module rootPath diagnostics hpackages hpaths hbrackets
  have hversions := Resolve.versions_of_reordered
    (reordered_ofPackages module rootPath diagnostics diagnostics' hrearranged) hb hspelled
  rintro ⟨caller, callee⟩
  exact hversions.mem_staticCalls hb caller callee

/-- A package `m` of two files declares variables; the first file imports a package `m/u`, which has
a type `T` with a method `get`. -/
def importing (vars vars' : List GlobalVar) : List LoadedPackage :=
  [{ dir := "/w", importPath := "m", name := "m", vendored := false
     files := [⟨"/w/a.go", "a.go", { package := "m", imports := [⟨none, "m/u", 3⟩], vars }⟩,
       ⟨"/w/b.go", "b.go", { package := "m", vars := vars' }⟩] },
   { dir := "/w/u", importPath := "m/u", name := "u", vendored := false
     files := [⟨"/w/u/a.go", "a.go",
       { package := "u", types := [⟨"T", 3, .struct [], false⟩]
         functions := [⟨"get", 5, some ⟨none, "T", false⟩, {}, [], some [], []⟩] }⟩] }]

/-- The variable `y` is an object of the type `T`. -/
def declaresY (line : Nat) : GlobalVar :=
  { names := ["y"], ty := none, values := [.composite (.named "m/u" "T") false []], line }

/-- A variable without a name is what `get` gives for `y`. -/
def usesY (line : Nat) : GlobalVar :=
  { names := ["_"], ty := none, values := [.call (.selector (.ident "y") "get") [] [] line], line }

/-- A variable without a name is a new object of the type `T`. -/
def allocates (line : Nat) : GlobalVar :=
  { names := ["_"], ty := none, values := [.new (.named "m/u" "T")], line }

theorem nameable_importing :
    ∀ pkg ∈ importing [declaresY 5, allocates 6] [usesY 3], pkg.Nameable := by
  intro pkg hpkg
  rcases List.mem_cons.mp hpkg with rfl | hpkg
  · exact ⟨by decide, by decide, by decide⟩
  · rw [List.mem_singleton.mp hpkg]
    exact ⟨by decide, by decide, by decide⟩

/-- The declaration that allocates is moved to the front, and the one that uses `y` to
the other file. -/
theorem rearranged_importing : List.Forall₂ LoadedPackage.Rearranged
    (importing [declaresY 5, allocates 6] [usesY 3])
      (importing [allocates 5, declaresY 6, usesY 7] []) :=
  .cons ⟨rfl, rfl, [(allocates 0, 1), (declaresY 0, 0), (usesY 0, 2)], .swap .., rfl, by decide⟩
    (.cons ⟨rfl, rfl, [], .nil, rfl, .nil⟩ .nil)

theorem Assembly.rearranged_same_static_calls_importing :
    ("m.init", "(m/u.T).get") ∈ (Resolve.run (ofPackages "m" "m" []
      (importing [allocates 5, declaresY 6, usesY 7] [])).program).1.staticCalls :=
  (rearranged_same_static_calls "m" "m" [] [] _ _ rearranged_importing
    nameable_importing (by decide) (by decide) (by decide +kernel) _).mp (by decide +kernel)

/-! ## Declarations that refer to each other -/

theorem Assembly.finish_of_isEmpty {a : Assembly}
    (h : (a.diagnostics ++ (Resolve.run a.program).2).isEmpty = true) :
    a.finish = .ok (Resolve.run a.program).1 := if_pos h

/-- **A use before the declaration loses its call.** Two versions of the packages differ in the
order of two declarations without function literals, and both load. Where `y` is used before it is
declared, its type is not known yet, and the call of its method is no call by name. -/
theorem Assembly.usedBefore_loses_call :
    List.Forall₂ (fun pkg pkg' => pkg.bare = pkg'.bare ∧ pkg.literals = [] ∧ pkg'.literals = [] ∧
        pkg'.vars.Perm pkg.vars)
      (importing [usesY 5, declaresY 6] []) (importing [declaresY 5, usesY 6] []) ∧
    (∃ p, (ofPackages "m" "m" [] (importing [usesY 5, declaresY 6] [])).finish = .ok p ∧
      ("m.init", "(m/u.T).get") ∉ p.staticCalls) ∧
    ∃ p, (ofPackages "m" "m" [] (importing [declaresY 5, usesY 6] [])).finish = .ok p ∧
      ("m.init", "(m/u.T).get") ∈ p.staticCalls := by
  refine ⟨.cons ⟨rfl, rfl, rfl, .swap ..⟩ (.cons ⟨rfl, rfl, rfl, .nil⟩ .nil), ?_, ?_⟩
  · exact ⟨_, finish_of_isEmpty (by decide +kernel), by decide +kernel⟩
  · exact ⟨_, finish_of_isEmpty (by decide +kernel), by decide +kernel⟩

end CallAtlas
