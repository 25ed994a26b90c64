import CallAtlas.Proofs.Resolve.Wrappers
import Mathlib.Data.List.Forall2

/-!
# Programs and their sources

A program loads only if nothing is wrong with any file, and what is wrong once stays recorded while
the packages are put together. So all files of a program that loads have been parsed, and the
program is put together from the outlines of their declarations. When bodies are read, only
functions without bodies are added.

Main statement: `Disk.loadProgram_sources`.
-/

set_option autoImplicit false

namespace CallAtlas

/-! ## Packages as they are parsed -/

/-- The files of a package as they are parsed. -/
structure SourcePackage where
  importPath : String
  names : Table String String
  files : List (List Source.Decl)

namespace SourcePackage

variable (pkg : SourcePackage)

/-- What names stand for at the front of a file. -/
def context : Outline.Context := { package := pkg.importPath, packageNames := pkg.names }

def outlines : List Outline.File := pkg.files.map (Outline.ofDecls pkg.importPath pkg.names)

end SourcePackage

/-- The package is loaded from these files. -/
structure LoadedPackage.From (loaded : LoadedPackage) (pkg : SourcePackage) : Prop where
  importPath : loaded.importPath = pkg.importPath
  outlines : loaded.files.map LoadedFile.outline = pkg.outlines

/-- The packages have been put together from these files. -/
def Assembly.PutTogether (packages : List SourcePackage) (a : Assembly) : Prop :=
  ∃ module rootPath diagnostics loaded, (∀ l ∈ loaded, ∃ pkg ∈ packages, LoadedPackage.From l pkg) ∧
    a = ofPackages module rootPath diagnostics loaded

/-- The package is what the files of a directory parse to. -/
structure SourcePackage.Parses (names : Table String String) (dir : PackageDir)
    (pkg : SourcePackage) : Prop where
  importPath : pkg.importPath = dir.importPath
  names : pkg.names = names
  files : List.Forall₂ (fun file decls => Source.parse? (SourceFile.text file) = some decls)
    dir.files pkg.files

namespace Assembly

/-! ## What is wrong stays wrong -/

theorem Registration.Takes.diagnostics {r r' : Registration} {place : Place} {o : Outline.Function}
    (h : Takes r place o r') : r.assembly.diagnostics <+: r'.assembly.diagnostics := by
  cases h with
  | problem d => exact List.prefix_append _ _
  | _ => exact List.prefix_rfl

theorem Registration.diagnostics_addFile (packageNames : Table String String) (package : String)
    (r : Registration) (f : LoadedFile) :
    r.assembly.diagnostics <+: (r.addFile packageNames package f).assembly.diagnostics := by
  let Grown (r' : Registration) : Prop := r.assembly.diagnostics <+: r'.assembly.diagnostics
  have himports : Grown (f.outline.imports.foldl (fun r imp => r.checkImport f.path imp) r) := by
    refine List.foldlRecOn (motive := Grown) _ _ List.prefix_rfl ?_
    intro r' hr' imp _
    unfold checkImport
    dsimp only
    split
    · exact hr'.trans (List.prefix_append _ _)
    · exact hr'
  refine List.foldlRecOn (motive := Grown) _ _ himports ?_
  intro r' hr' g _
  exact hr'.trans (takes_addFunction r' _ g).diagnostics

theorem diagnostics_ofPackages (module rootPath : String) (diagnostics : List Diagnostic)
    (packages : List LoadedPackage) :
    diagnostics <+: (ofPackages module rootPath diagnostics packages).diagnostics := by
  let Grown (a : Assembly) : Prop := diagnostics <+: a.diagnostics
  have hpackages : Grown (packages.foldl addPackage (start module rootPath diagnostics)) := by
    refine List.foldlRecOn (motive := Grown) _ _ List.prefix_rfl ?_
    intro a ha pkg _
    exact (ha.trans (List.prefix_append _ _)).trans (List.prefix_append _ _)
  refine List.foldlRecOn (motive := Grown) _ _ hpackages ?_
  intro a ha pkg _
  exact List.foldlRecOn (motive := fun r : Registration => diagnostics <+:
    r.assembly.diagnostics) _ _ ha fun r hr f _ => hr.trans (r.diagnostics_addFile _ _ f)

end Assembly

/-! ## Functions without bodies -/

namespace Resolve

/-- Whatever reading adds has no body. -/
structure Bare (p : Program) (s : State) : Prop where
  functions : p.functions <+: s.program.functions
  bodiless : ∀ (id : FuncId) (f : Function), s.program.functions[id]? = some f →
    p.functions[id]? = some f ∨ f.body = none

theorem Step.bare {p : Program} {s t : State} (h : Step s t) (hs : Bare p s) : Bare p t := by
  cases h with
  | function f facts _ hbody _ _ =>
    refine ⟨hs.functions.trans (List.prefix_append _ _), ?_⟩
    intro id g hg
    rcases of_getElem?_concat hg with hg | ⟨_, rfl⟩
    · exact hs.bodiless id g hg
    · exact Or.inr hbody
  | _ => exact ⟨hs.functions, hs.bodiless⟩

theorem run_bare (p : Program) : p.functions <+: (run p).1.functions ∧
    ∀ (id : FuncId) (f : Function), (run p).1.functions[id]? = some f →
      p.functions[id]? = some f ∨ f.body = none := by
  have hstart : Bare p (.start p) := ⟨List.prefix_rfl, fun _ _ hf => Or.inl hf⟩
  have hend := invariant_foldl_readFunction (I := Bare p) (J := Bare p)
    (fun _ _ hs => ⟨hs.functions, hs.bodiless⟩) Step.bare
    (fun hs => ⟨hs.functions, hs.bodiless⟩) (readingOrder p) hstart
  exact ⟨hend.functions, hend.bodiless⟩

end Resolve

/-! ## Loading -/

namespace Disk

variable {d : Disk} {names : Table String String} {dir : PackageDir}

theorem loadProgram_finishes {platform : Build.Platform} {module : Module}
    {start : String} {p : Program} (h : d.loadProgram platform module start = .ok p) :
    ∃ root dirs rootPath, d.locate start = .ok root ∧
      dirs = PackageDir.scan d.tree module platform root ∧
      (Assembly.ofPackages module.path rootPath
        (dirs.flatMap fun dir =>
          (d.readPackage (PackageDir.namesByPath dirs) dir).flatMap ReadFile.diagnostics)
        (dirs.map fun dir =>
          d.loadedPackage dir (d.readPackage (PackageDir.namesByPath dirs) dir))).finish =
          .ok p := by
  unfold Disk.loadProgram at h
  cases hroot : d.locate start with
  | error e =>
    rw [hroot] at h
    cases h
  | ok root =>
    rw [hroot] at h
    refine ⟨root, _, rootImportPath module root (PackageDir.scan d.tree module platform root), rfl,
      rfl, ?_⟩
    dsimp only [Except.mapError, bind, Except.bind] at h
    rwa [List.flatMap_map, List.map_map] at h

/-- If nothing is wrong, every file parses. -/
theorem exists_parse {a : Assembly} {p : Program} (h : a.finish = .ok p) {dirs : List PackageDir}
    (hdiagnostics : (dirs.flatMap fun dir =>
      (d.readPackage names dir).flatMap ReadFile.diagnostics) <+: a.diagnostics)
    (hdir : dir ∈ dirs) {file : SourceFile} (hfile : file ∈ dir.files) :
    ∃ decls, Source.parse? file.text = some decls := by
  have hnone : a.diagnostics = [] := by
    unfold Assembly.finish at h
    dsimp only at h
    split at h
    · rename_i hempty
      exact (List.append_eq_nil_iff.mp (List.isEmpty_iff.mp hempty)).1
    · cases h
  rw [hnone, List.prefix_nil, List.flatMap_eq_nil_iff] at hdiagnostics
  have hread := List.flatMap_eq_nil_iff.mp (hdiagnostics dir hdir) _ (List.mem_map_of_mem hfile)
  cases hparse : Source.parse? file.text with
  | some decls => exact ⟨decls, rfl⟩
  | none =>
    simp [ReadFile.diagnostics, Outline.ofSource?, hparse] at hread

/-- The directory with its files parsed. -/
def sourcePackage (names : Table String String) (dir : PackageDir) : SourcePackage where
  importPath := dir.importPath
  names := names
  files := dir.files.map fun file => (Source.parse? file.text).getD []

theorem parses_sourcePackage
    (h : ∀ file ∈ dir.files, ∃ decls, Source.parse? file.text = some decls) :
    (sourcePackage names dir).Parses names dir where
  importPath := rfl
  names := rfl
  files := by
    apply List.forall₂_map_right_iff.mpr
    apply List.forall₂_same.mpr
    intro file hfile
    obtain ⟨decls, hdecls⟩ := h file hfile
    simp only [hdecls, Option.getD_some]

theorem from_sourcePackage (h : ∀ file ∈ dir.files, ∃ decls, Source.parse? file.text = some decls) :
    (d.loadedPackage dir (d.readPackage names dir)).From (sourcePackage names dir) where
  importPath := rfl
  outlines := by
    simp only [loadedPackage, readPackage, SourcePackage.outlines, sourcePackage, List.map_map]
    apply List.map_congr_left
    intro file hfile
    obtain ⟨decls, hdecls⟩ := h file hfile
    simp [ReadFile.loaded, Outline.ofSource?, hdecls]

/-- **Main statement**: a program that loads is read from its packages, all of whose files parse. -/
theorem loadProgram_sources {platform : Build.Platform} {module : Module}
    {start : String} {p : Program} (h : d.loadProgram platform module start = .ok p) :
    ∃ root dirs packages a, d.locate start = .ok root ∧
      dirs = PackageDir.scan d.tree module platform root ∧
      List.Forall₂ (SourcePackage.Parses (PackageDir.namesByPath dirs)) dirs packages ∧
      Assembly.PutTogether packages a ∧ p = (Resolve.run a.program).1 := by
  obtain ⟨root, dirs, rootPath, hroot, hdirs, hfinish⟩ := loadProgram_finishes h
  have hparses : ∀ dir ∈ dirs, ∀ file ∈ dir.files, ∃ decls,
      Source.parse? file.text = some decls := by
    intro dir hdir file hfile
    exact exists_parse hfinish (Assembly.diagnostics_ofPackages ..) hdir hfile
  refine ⟨root, dirs, dirs.map (sourcePackage (PackageDir.namesByPath dirs)), _,
    hroot, hdirs, ?_, ?_, Assembly.finish_eq_ok hfinish⟩
  · rw [List.forall₂_map_right_iff, List.forall₂_same]
    exact fun dir hdir => parses_sourcePackage (hparses dir hdir)
  · refine ⟨_, _, _, _, ?_, rfl⟩
    intro l hl
    obtain ⟨dir, hdir, rfl⟩ := List.mem_map.mp hl
    exact ⟨_, List.mem_map_of_mem hdir, from_sourcePackage (hparses dir hdir)⟩

end Disk

end CallAtlas
