import CallAtlas.Outline.File
import CallAtlas.PackageDir
import CallAtlas.Resolve.Body

/-!
# Loading a program

From a directory of a module to its program: find the packages, outline their files, put them
together and resolve them. A program loads only if nothing is wrong with any of its files.
-/

set_option autoImplicit false

namespace CallAtlas

namespace PackageDir

/-- The names of packages by import path; of several packages with one path the last counts. -/
def namesByPath (dirs : List PackageDir) : Table String String :=
  Table.ofList (dirs.map fun d => (d.importPath, d.name))

end PackageDir

/-- A file of a package as it is loaded; without an outline it has a syntax error. -/
structure ReadFile where
  path : String
  name : String
  outline : Option Outline.File
deriving Inhabited

namespace ReadFile

/-- What is wrong with a file by itself. -/
def diagnostics (f : ReadFile) : List Diagnostic :=
  match f.outline with
  | none => [⟨f.path, 1, .syntaxError⟩]
  | some outline => outline.unusedImports.map fun imp => ⟨f.path, imp.line, .unusedImport imp.path⟩

/-- The file as a part of its package. -/
def loaded (f : ReadFile) : LoadedFile := ⟨f.path, f.name, f.outline.getD {}⟩

end ReadFile

namespace Disk

variable (d : Disk)

/-- Outlines the files of a package. -/
def readPackage (names : Table String String) (dir : PackageDir) : List ReadFile :=
  dir.files.map fun f => {
    path := d.display (dir.dir ++ [f.name]), name := f.name
    outline := Outline.ofSource? dir.importPath names f.text }

/-- A package whose files have been read. -/
def loadedPackage (dir : PackageDir) (files : List ReadFile) : LoadedPackage where
  dir := d.display dir.dir
  importPath := dir.importPath
  name := dir.name
  vendored := dir.vendored
  files := files.map ReadFile.loaded

/-- The import path under which packages must be loaded: that of the directory that is analysed. If
it is no package itself, both kinds of slash in its name divide the path. -/
def rootImportPath (module : Module) (root : Path) (dirs : List PackageDir) : String :=
  match dirs.find? fun dir => dir.dir == root with
  | some dir => dir.importPath
  | none =>
    if module.root.isPrefixOf root then
      match root.drop module.root.length with
      | [] => module.path
      | below =>
        let slashed := (Text.join "/" below).map fun c => if c == '\\' then '/' else c
        module.path ++ "/" ++ slashed
    else module.path

/-- The program of all packages under a directory of a module, with the files that a
platform builds. -/
def loadProgram (platform : Build.Platform) (module : Module) (start : String) :
    Except Error Program := do
  let root ← (d.locate start).mapError Error.io
  let dirs := PackageDir.scan d.tree module platform root
  let names := PackageDir.namesByPath dirs
  let packages := dirs.map fun dir => (dir, d.readPackage names dir)
  let diagnostics := packages.flatMap fun x => x.2.flatMap ReadFile.diagnostics
  let loaded := packages.map fun x => d.loadedPackage x.1 x.2
  (Assembly.ofPackages module.path (rootImportPath module root dirs) diagnostics loaded).finish

end Disk

end CallAtlas
