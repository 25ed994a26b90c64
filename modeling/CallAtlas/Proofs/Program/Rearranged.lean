import CallAtlas.Proofs.Outline.Lines
import CallAtlas.Proofs.Program.Keys
import CallAtlas.Proofs.Resolve.Requests
import CallAtlas.Proofs.Text

/-!
# Packages whose variables are declared in another order

Two versions of a package may differ in lines and in the order of the declarations of its variables,
which may also stand in other files (`LoadedPackage.Rearranged`). The programs that are put together
from them are the same but for the bodies of the initializers, which set the variables in these
orders (`Assembly.Reordered`).

Main statement: `reordered_ofPackages`.
-/

set_option autoImplicit false

namespace CallAtlas

open Outline (GlobalVar Stmt unlinedStmts unlinedFunctions)

/-! ## Versions of a package -/

/-- The outline of a file without lines and variables. -/
def Outline.File.bare (f : Outline.File) : Outline.File where
  package := f.package
  imports := f.imports.map fun imp => { imp with line := 0 }
  types := f.types.map fun t => { t with line := 0 }
  functions := unlinedFunctions f.functions
  consts := f.consts.map fun c => (c.1, 0)

/-- The file without lines and variables. -/
def LoadedFile.bare (f : LoadedFile) : LoadedFile := { f with outline := f.outline.bare }

/-- The variables that files declare, without lines. Their function literals are numbered
from `offset` on. -/
def varsFrom (offset : Nat) : List LoadedFile → List GlobalVar
  | [] => []
  | f :: rest =>
    f.outline.vars.map (fun v =>
      GlobalVar.unlined { v with values := Outline.shiftAll offset v.values }) ++
      varsFrom (offset + f.outline.initClosures.length) rest

namespace LoadedPackage

variable (pkg : LoadedPackage)

/-- The package without lines and variables. -/
def bare : LoadedPackage := { pkg with files := pkg.files.map LoadedFile.bare }

/-- The variables of the package in the order in which its initializer sets them. -/
def vars : List GlobalVar := varsFrom 0 pkg.files

/-- The function literals in the values of the variables. -/
def literals : List Outline.Function :=
  unlinedFunctions (pkg.files.flatMap fun f => f.outline.initClosures)

/-- A file of the package imports the package. -/
def importsItself : Bool :=
  pkg.files.any fun f => f.outline.imports.any fun imp => imp.path == pkg.importPath

/-- The packages differ in lines and in the order of the declarations of variables. Those that
depend on each other stand in the same order, and so do the function literals in them. -/
structure Rearranged (pkg pkg' : LoadedPackage) : Prop where
  bare : pkg.bare = pkg'.bare
  literals : pkg.literals = pkg'.literals
  vars : Outline.Rearranged pkg.importsItself pkg.vars pkg'.vars

end LoadedPackage

/-! ## Versions of a function -/

/-- The function without lines. -/
def Function.unlined (f : Function) : Function :=
  { f with body := f.body.map unlinedStmts, line := 0 }

/-- How the bodies of two versions of a function differ: in lines, or if it is the initializer of a
package in the order in which it sets variables. -/
inductive Function.Bodies (f : Function) : List Stmt → List Stmt → Prop
  | lines {stmts stmts' : List Stmt} (h : unlinedStmts stmts = unlinedStmts stmts') :
      Bodies f stmts stmts'
  | order {stmts stmts' : List Stmt} {own : Bool} {vars vars' : List GlobalVar}
      (hkind : f.kind = .initializer)
      (hown : ∀ name, f.imports.get? name = some (f.package.getD "") → own = true)
      (hvars : unlinedStmts stmts = vars.map GlobalVar.stmt)
      (hvars' : unlinedStmts stmts' = vars'.map GlobalVar.stmt)
      (h : Outline.Rearranged own vars vars') : Bodies f stmts stmts'

/-- Two versions of a function. -/
structure Function.Reordered (f f' : Function) : Prop where
  face : f.face = f'.face
  bodies : Option.Rel f.Bodies f.body f'.body

theorem Function.reordered_of_unlined {f f' : Function} (h : f.unlined = f'.unlined) :
    f.Reordered f' where
  face := by
    show f.unlined.face = f'.unlined.face
    rw [h]
  bodies := by
    have hbody : f.body.map unlinedStmts = f'.body.map unlinedStmts := congrArg Function.body h
    cases hf : f.body with
    | none =>
      rw [hf, Option.map_none] at hbody
      rw [Option.map_eq_none_iff.mp hbody.symm]
      exact .none
    | some stmts =>
      rw [hf, Option.map_some] at hbody
      obtain ⟨stmts', hf', hstmts⟩ := Option.map_eq_some_iff.mp hbody.symm
      rw [hf']
      exact .some (.lines hstmts.symm)

theorem forall₂_reordered_of_map {fs fs' : List Function}
    (h : fs.map Function.unlined = fs'.map Function.unlined) :
    List.Forall₂ Function.Reordered fs fs' := by
  rw [← List.forall₂_eq_eq_eq, List.forall₂_map_left_iff, List.forall₂_map_right_iff] at h
  exact h.imp fun _ _ => Function.reordered_of_unlined

namespace Assembly

mutual

theorem map_unlined_expand (place : Place) (id : FuncId) (parent : Option FuncId)
    (key name : String) (kind : FunctionKind) (recvType : Option TypeId) (f : Outline.Function) :
    (expand place id parent key name kind recvType f).map Function.unlined =
      expand place id parent key name kind recvType f.unlined := by
  obtain ⟨_, line, receiver, signature, typeParams, body, closures⟩ := f
  obtain ⟨hids, hinner⟩ := unlined_expandClosures place id key name 1 (id + 1) closures
  rw [Outline.Function.unlined]
  unfold expand
  rw [List.map_cons, hinner, hids]
  rfl

theorem unlined_expandClosures (place : Place) (parent : FuncId) (key name : String) (n : Nat)
    (next : FuncId) (closures : List Outline.Function) :
    (expandClosures place parent key name n next closures).1 =
        (expandClosures place parent key name n next (unlinedFunctions closures)).1 ∧
      (expandClosures place parent key name n next closures).2.map Function.unlined =
        (expandClosures place parent key name n next (unlinedFunctions closures)).2 := by
  cases closures with
  | nil => exact ⟨rfl, rfl⟩
  | cons closure rest =>
    have hfirst := map_unlined_expand place next (some parent) s!"{key}${n}" s!"{name}${n}"
      .closure none closure
    have hlength := congrArg List.length hfirst
    rw [List.length_map] at hlength
    obtain ⟨hids, hinner⟩ := unlined_expandClosures place parent key name (n + 1)
      (next + (expand place next (some parent) s!"{key}${n}" s!"{name}${n}"
        .closure none closure).length) rest
    rw [unlinedFunctions]
    unfold expandClosures
    rw [hlength] at hids hinner
    dsimp only
    rw [hlength, List.map_append, hfirst, hids, hinner]
    exact ⟨rfl, rfl⟩

end

theorem reordered_expand (place : Place) (id : FuncId) (parent : Option FuncId) (key name : String)
    (kind : FunctionKind) (recvType : Option TypeId) {f f' : Outline.Function}
    (h : f.unlined = f'.unlined) :
    List.Forall₂ Function.Reordered (expand place id parent key name kind recvType f)
      (expand place id parent key name kind recvType f') := by
  refine forall₂_reordered_of_map ?_
  rw [map_unlined_expand, map_unlined_expand, h]

end Assembly

/-! ## Taking in functions -/

theorem map_face_of_reordered {fs fs' : List Function}
    (h : List.Forall₂ Function.Reordered fs fs') :
    fs.map Function.face = fs'.map Function.face := by
  rw [← List.forall₂_eq_eq_eq, List.forall₂_map_left_iff, List.forall₂_map_right_iff]
  exact h.imp fun _ _ hf => hf.face

namespace Outline.Function

variable {f f' : Outline.Function}

theorem name_unlined (f : Outline.Function) : f.unlined.name = f.name := by
  cases f
  rw [Outline.Function.unlined]

theorem receiver_unlined (f : Outline.Function) : f.unlined.receiver = f.receiver := by
  cases f
  rw [Outline.Function.unlined]

theorem name_eq_of_unlined (h : f.unlined = f'.unlined) : f.name = f'.name := by
  rw [← f.name_unlined, h, f'.name_unlined]

theorem receiver_eq_of_unlined (h : f.unlined = f'.unlined) : f.receiver = f'.receiver := by
  rw [← f.receiver_unlined, h, f'.receiver_unlined]

end Outline.Function

namespace Assembly.Registration

variable {r r' : Registration}

/-- The registrations have taken in versions of the same functions. What else they hold is the same,
but for the variables of the current package and for problems. -/
structure Reordered (r r' : Registration) : Prop where
  functions : List.Forall₂ Function.Reordered r.assembly.program.functions
    r'.assembly.program.functions
  program : { r.assembly.program with functions := [] } =
    { r'.assembly.program with functions := [] }
  funcs : r.funcs = r'.funcs
  userInits : r.userInits = r'.userInits
  imports : r.imports = r'.imports

theorem Reordered.decls_eq (h : r.Reordered r') :
    r.assembly.program.decls = r'.assembly.program.decls := by
  show ({ r.assembly.program with functions := [] } : Program).decls = _
  rw [h.program]

theorem Reordered.nextId_eq (h : r.Reordered r') : r.nextId = r'.nextId := h.functions.length_eq

theorem Reordered.isSome_funcByKey? (h : r.Reordered r') (key : String) :
    (r.assembly.program.funcByKey? key).isSome = (r'.assembly.program.funcByKey? key).isSome := by
  have hkeys : ∀ fs : List Function, (fs.map Function.face).map Function.key =
      fs.map Function.key := fun fs => by
    rw [List.map_map]
    rfl
  have hnone : r.assembly.program.funcByKey? key = none ↔
      r'.assembly.program.funcByKey? key = none := by
    rw [Program.funcByKey?_eq_none_iff, Program.funcByKey?_eq_none_iff, ← hkeys,
      map_face_of_reordered h.functions, hkeys]
  rw [Bool.eq_iff_iff, Option.isSome_iff_ne_none, Option.isSome_iff_ne_none]
  exact not_congr hnone

theorem Reordered.append (h : r.Reordered r') {fs fs' : List Function}
    (hfs : List.Forall₂ Function.Reordered fs fs') : (r.append fs).Reordered (r'.append fs') :=
  ⟨List.rel_append h.functions hfs, h.program, h.funcs, h.userInits, h.imports⟩

/-- Problems do not matter. -/
theorem Reordered.report (h : r.Reordered r') (d d' : Diagnostic) :
    (r.report d).Reordered (r'.report d') :=
  ⟨h.functions, h.program, h.funcs, h.userInits, h.imports⟩

section TakingIn

variable {place : Place} {f f' : Outline.Function} (h : r.Reordered r')
  (hf : f.unlined = f'.unlined)

include h hf

theorem Reordered.withMethod (receiver : Outline.Receiver) (id : TypeId) (t : NamedType) :
    (r.withMethod place f receiver id t).Reordered (r'.withMethod place f' receiver id t) := by
  unfold Registration.withMethod
  dsimp only
  rw [← h.decls_eq, ← h.nextId_eq, ← Outline.Function.name_eq_of_unlined hf]
  let star := if receiver.pointer then "*" else ""
  have hadded := h.append (reordered_expand place r.nextId none
    s!"({star}{place.package}.{t.name}).{f.name}" s!"({star}{t.name}).{f.name}"
    .method (some id) hf)
  refine ⟨hadded.functions, ?_, hadded.funcs, hadded.userInits, hadded.imports⟩
  let method : Method := { func := r.nextId, pointerReceiver := receiver.pointer }
  exact congrArg (fun p : Program =>
    { p with decls := r.assembly.program.decls.addMethod id f.name method }) hadded.program

theorem Reordered.withInit : (r.withInit place f).Reordered (r'.withInit place f') := by
  unfold Registration.withInit
  dsimp only
  rw [← h.nextId_eq, ← h.userInits]
  let name := s!"init#{r.userInits.length + 1}"
  have hadded := h.append (reordered_expand place r.nextId none s!"{place.package}.{name}" name
    .function none hf)
  exact ⟨hadded.functions, hadded.program, hadded.funcs, rfl, hadded.imports⟩

theorem Reordered.withFunction : (r.withFunction place f).Reordered (r'.withFunction place f') := by
  unfold Registration.withFunction
  rw [← h.nextId_eq, ← Outline.Function.name_eq_of_unlined hf]
  have hadded := h.append (reordered_expand place r.nextId none s!"{place.package}.{f.name}"
    f.name .function none hf)
  exact ⟨hadded.functions, hadded.program, congrArg (fun t => t.insert f.name r.nextId) h.funcs,
    hadded.userInits, hadded.imports⟩

theorem Reordered.addMethod (receiver : Outline.Receiver) :
    (r.addMethod place f receiver).Reordered (r'.addMethod place f' receiver) := by
  unfold Registration.addMethod
  dsimp only
  rw [← h.decls_eq, ← Outline.Function.name_eq_of_unlined hf]
  cases r.assembly.program.decls.lookup place.package receiver.typeName with
  | none => exact h.report _ _
  | some id =>
    dsimp only
    cases r.assembly.program.decls.types[id]? with
    | none => exact h
    | some t =>
      dsimp only
      split
      · exact h.report _ _
      · split
        · exact h.report _ _
        · exact h.withMethod hf receiver id t

theorem Reordered.addFunction : (r.addFunction place f).Reordered (r'.addFunction place f') := by
  unfold Registration.addFunction
  rw [← Outline.Function.receiver_eq_of_unlined hf]
  cases f.receiver with
  | some receiver => exact h.addMethod hf receiver
  | none =>
    dsimp only
    rw [← Outline.Function.name_eq_of_unlined hf, ← h.isSome_funcByKey?]
    split
    · exact h.withInit hf
    · split
      · exact h
      · exact h.withFunction hf

end TakingIn

/-! ## Taking in files -/

theorem foldl_checkImport (file : String) (imports : List Outline.Import) (r : Registration) :
    ∃ diagnostics, imports.foldl (fun r imp => r.checkImport file imp) r =
      { r with assembly := { r.assembly with diagnostics } } := by
  induction imports generalizing r with
  | nil => exact ⟨_, rfl⟩
  | cons imp rest ih =>
    obtain ⟨diagnostics, hrest⟩ := ih (r.checkImport file imp)
    refine ⟨diagnostics, hrest.trans ?_⟩
    unfold Registration.checkImport
    dsimp only
    split <;> rfl

theorem importTable_bare (packageNames : Table String String) (imports : List Outline.Import) :
    importTable packageNames (imports.map fun imp => { imp with line := 0 }) =
      importTable packageNames imports := by
  unfold importTable
  rw [List.filterMap_map]
  rfl

theorem Reordered.foldl_addFunction (h : r.Reordered r') (place : Place)
    {fs fs' : List Outline.Function} (hfs : unlinedFunctions fs = unlinedFunctions fs') :
    (fs.foldl (fun r g => r.addFunction place g) r).Reordered
      (fs'.foldl (fun r g => r.addFunction place g) r') := by
  induction fs generalizing fs' r r' with
  | nil =>
    cases fs' with
    | nil => exact h
    | cons f' rest' => cases hfs
  | cons f rest ih =>
    cases fs' with
    | nil => cases hfs
    | cons f' rest' =>
      obtain ⟨hf, hrest⟩ := List.cons.inj hfs
      exact ih (h.addFunction hf) hrest

theorem Reordered.addFile (h : r.Reordered r') (packageNames : Table String String)
    (package : String) {f f' : LoadedFile} (hf : f.bare = f'.bare) :
    (r.addFile packageNames package f).Reordered (r'.addFile packageNames package f') := by
  have hpath : f.bare.path = f'.bare.path := congrArg LoadedFile.path hf
  have houtline : f.outline.bare = f'.outline.bare := congrArg LoadedFile.outline hf
  have himports : importTable packageNames f.outline.imports =
      importTable packageNames f'.outline.imports := by
    rw [← importTable_bare, ← importTable_bare packageNames f'.outline.imports]
    exact congrArg (fun file => importTable packageNames file.imports) houtline
  obtain ⟨diagnostics, hchecked⟩ := foldl_checkImport f.path f.outline.imports r
  obtain ⟨diagnostics', hchecked'⟩ := foldl_checkImport f'.path f'.outline.imports r'
  unfold Registration.addFile
  dsimp only
  rw [hchecked, hchecked', ← himports, show f'.path = f.path from hpath.symm, ← h.imports]
  refine Reordered.foldl_addFunction ?_ _ (congrArg Outline.File.functions houtline)
  exact ⟨h.functions, h.program, h.funcs, h.userInits, rfl⟩

/-- What a file adds to the initializer of its package. -/
theorem addFile_eq (packageNames : Table String String) (package : String) (r : Registration)
    (f : LoadedFile) :
    (r.addFile packageNames package f).stmts =
      r.stmts ++ initStmts r.closures.length f.outline.vars ∧
      (r.addFile packageNames package f).closures = r.closures ++ f.outline.initClosures ∧
      (r.addFile packageNames package f).imports =
        (importTable packageNames f.outline.imports).entries.foldl (fun t e => t.insert e.1 e.2)
          r.imports := by
  have htakes : ∀ {r r' : Registration} {place : Place} {g : Outline.Function}, Takes r place g r' →
      r'.stmts = r.stmts ∧ r'.closures = r.closures ∧ r'.imports = r.imports := by
    intro r r' place g h
    cases h <;> exact ⟨rfl, rfl, rfl⟩
  have hfold : ∀ (place : Place) (fs : List Outline.Function) (r : Registration),
      (fs.foldl (fun r g => r.addFunction place g) r).stmts = r.stmts ∧
        (fs.foldl (fun r g => r.addFunction place g) r).closures = r.closures ∧
        (fs.foldl (fun r g => r.addFunction place g) r).imports = r.imports := by
    intro place fs r
    induction fs generalizing r with
    | nil => exact ⟨rfl, rfl, rfl⟩
    | cons g rest ih =>
      obtain ⟨hstmts, hclosures, himports⟩ := ih (r.addFunction place g)
      obtain ⟨hstmts', hclosures', himports'⟩ := htakes (takes_addFunction r place g)
      exact ⟨hstmts.trans hstmts', hclosures.trans hclosures', himports.trans himports'⟩
  obtain ⟨diagnostics, hchecked⟩ := foldl_checkImport f.path f.outline.imports r
  unfold Registration.addFile
  dsimp only
  rw [hchecked]
  exact hfold _ _ _

theorem unlinedStmts_initStmts (offset : Nat) (vars : List GlobalVar) :
    unlinedStmts (initStmts offset vars) =
      (vars.map fun v => GlobalVar.unlined
        { v with values := Outline.shiftAll offset v.values }).map GlobalVar.stmt := by
  rw [Outline.unlinedStmts_eq_map, initStmts, List.map_map, List.map_map]
  exact List.map_congr_left fun v _ =>
    GlobalVar.unlined_stmt { v with values := Outline.shiftAll offset v.values }

/-- The initializer of a package sets its variables in order. -/
theorem foldl_addFile_eq (packageNames : Table String String) (package : String)
    (files : List LoadedFile) (r : Registration) :
    unlinedStmts (files.foldl (addFile packageNames package) r).stmts =
        unlinedStmts r.stmts ++ (varsFrom r.closures.length files).map GlobalVar.stmt ∧
      (files.foldl (addFile packageNames package) r).closures =
        r.closures ++ files.flatMap fun f => f.outline.initClosures := by
  induction files generalizing r with
  | nil => exact ⟨(List.append_nil _).symm, (List.append_nil _).symm⟩
  | cons f rest ih =>
    obtain ⟨hstmts, hclosures, _⟩ := addFile_eq packageNames package r f
    obtain ⟨hrest, hrest'⟩ := ih (r.addFile packageNames package f)
    rw [hclosures] at hrest hrest'
    rw [hstmts, Outline.unlinedStmts_append, unlinedStmts_initStmts, List.length_append] at hrest
    rw [List.foldl_cons, hrest, hrest', varsFrom, List.map_append, List.append_assoc,
      List.append_assoc, List.flatMap_cons]
    exact ⟨rfl, rfl⟩

/-- The imports of the initializer of a package are those of its files. -/
theorem mem_imports_foldl_addFile (packageNames : Table String String) (package : String)
    (files : List LoadedFile) {r : Registration} {e : String × String}
    (h : e ∈ (files.foldl (addFile packageNames package) r).imports.entries) :
    e ∈ r.imports.entries ∨ ∃ f ∈ files, ∃ imp ∈ f.outline.imports, imp.path = e.2 := by
  have hinserted : ∀ {pairs : List (String × String)} {t : Table String String},
      e ∈ (pairs.foldl (fun t p => t.insert p.1 p.2) t).entries → e ∈ pairs ∨ e ∈ t.entries := by
    intro pairs
    induction pairs with
    | nil => exact fun h => Or.inr h
    | cons p rest ih =>
      intro t h
      rcases ih h with h | h
      · exact Or.inl (List.mem_cons_of_mem _ h)
      · rcases Table.mem_entries_insert h with rfl | h
        · exact Or.inl List.mem_cons_self
        · exact Or.inr h
  induction files generalizing r with
  | nil => exact Or.inl h
  | cons f rest ih =>
    rcases ih h with h | ⟨g, hg, himp⟩
    · rw [(addFile_eq packageNames package r f).2.2] at h
      rcases hinserted h with h | h
      · rcases hinserted h with h | h
        · obtain ⟨imp, himp, hkey⟩ := List.mem_filterMap.mp h
          obtain ⟨name, _, rfl⟩ := Option.map_eq_some_iff.mp hkey
          exact Or.inr ⟨f, List.mem_cons_self, imp, himp, rfl⟩
        · cases h
      · exact Or.inl h
    · exact Or.inr ⟨g, List.mem_cons_of_mem _ hg, himp⟩

end Assembly.Registration

/-! ## Taking in packages -/

theorem Outline.Rearranged.perm {own : Bool} {vars vars' : List GlobalVar}
    (h : Outline.Rearranged own vars vars') : vars'.Perm vars := by
  obtain ⟨numbered, hperm, rfl, _⟩ := h
  have hmap := hperm.map Prod.fst
  rwa [List.zipIdx_map_fst] at hmap

theorem sortedSet_eq_of_perm {xs ys : List String} (h : xs.Perm ys) :
    sortedSet xs = sortedSet ys := by
  have hsorted : xs.mergeSort (Text.leBy id) = ys.mergeSort (Text.leBy id) :=
    Text.mergeSort_eq_of_perm (Text.leBy_trans id) (Text.leBy_total id) h fun _ _ _ _ hab hba =>
      String.le_antisymm (of_decide_eq_true hab) (of_decide_eq_true hba)
  exact congrArg List.eraseDups hsorted

namespace Assembly

/-- The names that a file declares for anything but variables. -/
def fixedNames (f : Outline.File) : List String :=
  f.types.map Outline.TypeDecl.name ++ f.consts.map Prod.fst ++
    (f.functions.filter fun g => g.receiver.isNone && g.name != "init").map Outline.Function.name

theorem fixedNames_bare (f : Outline.File) : fixedNames f.bare = fixedNames f := by
  unfold fixedNames Outline.File.bare
  dsimp only
  rw [Outline.unlinedFunctions_eq_map, List.map_map, List.map_map, List.filter_map, List.map_map]
  congr 2
  · exact funext Outline.Function.name_unlined
  · refine List.filter_congr fun g _ => ?_
    show (g.unlined.receiver.isNone && g.unlined.name != "init") = _
    rw [g.name_unlined, g.receiver_unlined]

/-- The names that a file declares. -/
theorem map_declaredNames_perm (f : Outline.File) : ((declaredNames f).map Prod.fst).Perm
    ((fixedNames f ++ f.vars.flatMap GlobalVar.names).filter fun name => name != "_") := by
  have hmap : (declaredNames f).map Prod.fst =
      (f.types.map Outline.TypeDecl.name ++ f.consts.map Prod.fst ++
        f.vars.flatMap GlobalVar.names ++
        (f.functions.filter fun g => g.receiver.isNone && g.name != "init").map
        Outline.Function.name).filter fun name => name != "_" := by
    unfold declaredNames
    rw [← Function.comp_def (fun name : String => name != "_") Prod.fst, ← List.filter_map]
    simp only [List.map_append, List.map_map, List.map_flatMap, Function.comp_def, List.map_id']
  rw [hmap, fixedNames, List.append_assoc, List.append_assoc _ _ (f.vars.flatMap GlobalVar.names)]
  exact ((List.perm_append_comm).append_left _).filter _

theorem names_varsFrom (offset : Nat) (files : List LoadedFile) :
    (varsFrom offset files).flatMap GlobalVar.names = files.flatMap fun f =>
      f.outline.vars.flatMap GlobalVar.names := by
  induction files generalizing offset with
  | nil => rfl
  | cons f rest ih =>
    rw [varsFrom, List.flatMap_append, ih, List.flatMap_cons, List.flatMap_map]
    rfl

/-- The names that a package declares. -/
theorem map_declarations_perm (pkg : LoadedPackage) : ((declarations pkg).map Declaration.name).Perm
    ((pkg.bare.files.flatMap (fun f => fixedNames f.outline) ++
      pkg.vars.flatMap GlobalVar.names).filter fun name => name != "_") := by
  have hfixed : pkg.bare.files.flatMap (fun f => fixedNames f.outline) =
      pkg.files.flatMap fun f => fixedNames f.outline := by
    show (pkg.files.map LoadedFile.bare).flatMap _ = _
    rw [List.flatMap_map]
    exact List.flatMap_congr fun f _ => fixedNames_bare f.outline
  have hnames : (declarations pkg).map Declaration.name =
      pkg.files.flatMap fun f => (declaredNames f.outline).map Prod.fst := by
    rw [declarations, List.map_flatMap]
    exact List.flatMap_congr fun f _ => by rw [List.map_map]; rfl
  rw [hfixed, hnames, LoadedPackage.vars, names_varsFrom]
  refine (List.Perm.flatMap_left _ fun f _ => map_declaredNames_perm f.outline).trans ?_
  rw [← List.filter_flatMap]
  exact (List.flatMap_append_perm _ _ _).symm.filter _

/-- A package is registered by what does not depend on lines and on the order of its variables. -/
theorem program_addPackage (a : Assembly) (pkg : LoadedPackage) :
    (a.addPackage pkg).program = { a.program with
      packages := a.program.packages ++ [packageOf pkg.bare
        ((pkg.bare.files.flatMap (fun f => fixedNames f.outline) ++
          pkg.vars.flatMap GlobalVar.names).filter fun name => name != "_")]
      decls := (pkg.bare.files.flatMap fun f => f.outline.types).foldl
        (declareType pkg.bare.importPath) a.program.decls } := by
  have himports : (pkg.bare.files.flatMap fun f => f.outline.imports.map Outline.Import.path) =
      pkg.files.flatMap fun f => f.outline.imports.map Outline.Import.path := by
    show (pkg.files.map LoadedFile.bare).flatMap _ = _
    rw [List.flatMap_map]
    refine List.flatMap_congr fun f _ => ?_
    show (f.outline.imports.map _).map _ = _
    rw [List.map_map]
    rfl
  have htypes : (pkg.bare.files.flatMap fun f => f.outline.types) =
      (pkg.files.flatMap fun f => f.outline.types).map fun t => { t with line := 0 } := by
    show (pkg.files.map LoadedFile.bare).flatMap _ = _
    rw [List.flatMap_map, List.map_flatMap]
    rfl
  have hname : (pkg.bare.files.head?.map fun f => f.outline.package) =
      pkg.files.head?.map fun f => f.outline.package := by
    show (pkg.files.map LoadedFile.bare).head?.map _ = _
    rw [List.head?_map, Option.map_map]
    rfl
  have hfiles : pkg.bare.files.map LoadedFile.path = pkg.files.map LoadedFile.path := by
    show (pkg.files.map LoadedFile.bare).map _ = _
    rw [List.map_map]
    rfl
  rw [htypes, List.foldl_map, packageOf, hname, hfiles, himports,
    ← sortedSet_eq_of_perm (map_declarations_perm pkg)]
  rfl

theorem program_addPackage_eq {a a' : Assembly} (h : a.program = a'.program)
    {pkg pkg' : LoadedPackage} (hpkg : pkg.Rearranged pkg') :
    (a.addPackage pkg).program = (a'.addPackage pkg').program := by
  have hnames := hpkg.vars.perm.flatMap_right GlobalVar.names
  rw [program_addPackage, program_addPackage, h, hpkg.bare, packageOf, packageOf,
    sortedSet_eq_of_perm ((hnames.append_left _).filter _)]

theorem program_foldl_addPackage_eq {packages packages' : List LoadedPackage}
    (hpackages : List.Forall₂ LoadedPackage.Rearranged packages packages') {a a' : Assembly}
    (h : a.program = a'.program) :
    (packages.foldl addPackage a).program = (packages'.foldl addPackage a').program := by
  induction hpackages generalizing a a' with
  | nil => exact h
  | cons hpkg _ ih => exact ih (program_addPackage_eq h hpkg)

/-! ## Initializers -/

/-- Two versions of an initializer whose bodies are versions of each other. -/
theorem reordered_expand_initializer (place : Place) (id : FuncId) (key : String)
    {stmts stmts' : List Stmt} {closures closures' : List Outline.Function}
    (hclosures : unlinedFunctions closures = unlinedFunctions closures')
    (hbodies : ∀ f : Function, f.kind = .initializer → f.imports = place.imports →
      f.package = some place.package → f.Bodies stmts stmts') :
    List.Forall₂ Function.Reordered
      (expand place id none key "init" .initializer none (initializer stmts closures))
      (expand place id none key "init" .initializer none (initializer stmts' closures')) := by
  obtain ⟨hids, hinner⟩ := unlined_expandClosures place id key "init" 1 (id + 1) closures
  obtain ⟨hids', hinner'⟩ := unlined_expandClosures place id key "init" 1 (id + 1) closures'
  rw [← hclosures] at hids' hinner'
  unfold initializer expand
  refine .cons ⟨?_, .some (hbodies _ rfl rfl rfl)⟩
    (forall₂_reordered_of_map (hinner.trans hinner'.symm))
  unfold Function.face
  dsimp only
  rw [hids, hids']

theorem Registration.Reordered.foldl_addFile {r r' : Registration} (h : r.Reordered r')
    (packageNames : Table String String) (package : String) {files files' : List LoadedFile}
    (hfiles : files.map LoadedFile.bare = files'.map LoadedFile.bare) :
    (files.foldl (Registration.addFile packageNames package) r).Reordered
      (files'.foldl (Registration.addFile packageNames package) r') := by
  induction files generalizing files' r r' with
  | nil =>
    rw [List.map_nil, eq_comm, List.map_eq_nil_iff] at hfiles
    rw [hfiles]
    exact h
  | cons f rest ih =>
    cases files' with
    | nil => cases hfiles
    | cons f' rest' =>
      obtain ⟨hf, hrest⟩ := List.cons.inj hfiles
      exact ih (h.addFile packageNames package hf) hrest

/-- Between packages. -/
def Reordered (a a' : Assembly) : Prop :=
  Registration.Reordered { assembly := a } { assembly := a' }

theorem Registration.Reordered.close {r r' : Registration} (h : r.Reordered r') {package : String}
    (file : String) (index : Nat)
    (hclosures : unlinedFunctions r.closures = unlinedFunctions r'.closures)
    (hbodies : ∀ f : Function, f.kind = .initializer → f.imports = r.imports →
      f.package = some package → f.Bodies r.stmts r'.stmts) :
      (r.close package file index).Reordered (r'.close package file index) := by
  have hadded := h.append (reordered_expand_initializer ⟨package, r.imports, file⟩ r.nextId
    s!"{package}.init" hclosures hbodies)
  unfold Registration.close
  dsimp only
  rw [← h.imports, ← h.nextId_eq, ← h.funcs, ← h.userInits]
  refine ⟨hadded.functions, ?_, rfl, rfl, rfl⟩
  exact congrArg (fun p : Program => { p with packages := p.packages.modify index fun q =>
    { q with funcs := r.funcs, userInits := r.userInits, init := some r.nextId } }) hadded.program

/-- The versions of an initializer set the variables in the order of the versions of the package. -/
theorem bodies_initializer (packageNames : Table String String) {pkg pkg' : LoadedPackage}
    (hpkg : pkg.Rearranged pkg') (a a' : Assembly) {f : Function} (hkind : f.kind = .initializer)
    (himports : f.imports = (Registration.ofFiles packageNames pkg.importPath a pkg.files).imports)
    (hpackage : f.package = some pkg.importPath) :
    f.Bodies (Registration.ofFiles packageNames pkg.importPath a pkg.files).stmts
      (Registration.ofFiles packageNames pkg.importPath a' pkg'.files).stmts := by
  refine .order hkind (fun name hname => ?_)
    (Registration.foldl_addFile_eq packageNames pkg.importPath pkg.files _).1
    (Registration.foldl_addFile_eq packageNames pkg.importPath pkg'.files _).1 hpkg.vars
  rw [himports, hpackage] at hname
  rcases Registration.mem_imports_foldl_addFile packageNames pkg.importPath pkg.files
    (Table.mem_entries_of_get? hname) with hnone | ⟨file, hfile, imp, himp, hpath⟩
  · cases hnone
  · exact List.any_eq_true.mpr ⟨file, hfile, List.any_eq_true.mpr ⟨imp, himp, beq_iff_eq.mpr hpath⟩⟩

theorem Reordered.addFunctions {a a' : Assembly} (h : a.Reordered a')
    (packageNames : Table String String) (index : Nat) {pkg pkg' : LoadedPackage}
    (hpkg : pkg.Rearranged pkg') :
    (a.addFunctions packageNames index pkg).Reordered
      (a'.addFunctions packageNames index pkg') := by
  have hpath : pkg.bare.importPath = pkg'.bare.importPath :=
    congrArg LoadedPackage.importPath hpkg.bare
  have hbare : pkg.files.map LoadedFile.bare = pkg'.files.map LoadedFile.bare :=
    congrArg LoadedPackage.files hpkg.bare
  have hfile : pkg.files.head?.map LoadedFile.path = pkg'.files.head?.map LoadedFile.path := by
    have hpaths := congrArg (fun files : List LoadedFile => (files.map LoadedFile.path).head?) hbare
    simp only [List.map_map, List.head?_map] at hpaths
    exact hpaths
  have hclosures : unlinedFunctions
      (Registration.ofFiles packageNames pkg.importPath a pkg.files).closures =
      unlinedFunctions (Registration.ofFiles packageNames
        pkg.importPath a' pkg'.files).closures := by
    rw [(Registration.foldl_addFile_eq packageNames pkg.importPath pkg.files _).2,
      (Registration.foldl_addFile_eq packageNames pkg.importPath pkg'.files _).2]
    exact hpkg.literals
  rw [Assembly.addFunctions, Assembly.addFunctions, ← hfile,
    show pkg'.importPath = pkg.importPath from hpath.symm]
  exact (Registration.Reordered.foldl_addFile h packageNames pkg.importPath hbare).close _
    index hclosures fun f => bodies_initializer packageNames hpkg a a'

/-- **Main statement**: programs that are put together from versions of the same packages have
versions of the same functions, and everything else in them is the same. -/
theorem reordered_ofPackages (module rootPath : String) (diagnostics diagnostics' : List Diagnostic)
    {packages packages' : List LoadedPackage}
    (hpackages : List.Forall₂ LoadedPackage.Rearranged packages packages') :
    (ofPackages module rootPath diagnostics packages).Reordered
      (ofPackages module rootPath diagnostics' packages') := by
  have hfold : ∀ (packageNames : Table String String) (n : Nat) {a a' : Assembly}, a.Reordered a' →
      ((packages.zipIdx n).foldl (fun a pkg => a.addFunctions packageNames pkg.2 pkg.1) a).Reordered
        ((packages'.zipIdx n).foldl (fun a pkg => a.addFunctions packageNames pkg.2 pkg.1) a') := by
    intro packageNames
    induction hpackages with
    | nil => exact fun n a a' h => h
    | cons hpkg _ ih => exact fun n a a' h => ih (n + 1) (h.addFunctions packageNames n hpkg)
  have hprogram := program_foldl_addPackage_eq hpackages
    (show (start module rootPath diagnostics).program =
      (start module rootPath diagnostics').program from rfl)
  unfold ofPackages
  dsimp only
  rw [← hprogram]
  refine hfold _ 0 ⟨?_, ?_, rfl, rfl, rfl⟩
  · dsimp only
    rw [← hprogram, (foldl_addPackage packages _).2]
    exact .nil
  · dsimp only
    rw [hprogram]

end Assembly

end CallAtlas
