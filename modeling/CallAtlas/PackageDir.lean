import CallAtlas.Build.Constraint
import CallAtlas.FileTree
import CallAtlas.Module

/-!
# Package directories

A package is a directory with at least one file of the build. The scan starts at a directory and
goes down, but not into hidden directories, test data or other modules, so what it finds does not
depend on the order of the entries of a directory.
-/

set_option autoImplicit false

namespace CallAtlas

/-- A file of a package. -/
structure SourceFile where
  name : String
  text : String
deriving DecidableEq, Repr, Inhabited

/-- A directory that is a package: the path by which it is imported, the name in the package clause
of its first file, and its files in the order of their names. -/
structure PackageDir where
  dir : Path
  importPath : String
  name : String
  files : List SourceFile
  vendored : Bool
deriving DecidableEq, Repr, Inhabited

namespace PackageDir

/-- The name of a package clause at the front of a text. -/
def clauseName? (cs : List Char) : Option (List Char) := do
  let rest ← Text.dropPrefix? "package".toList cs
  match rest with
  | [] => none
  | c :: _ =>
    let name := (rest.dropWhile Text.isBlank).takeWhile Text.isWordChar
    if Text.isBlank c && !name.isEmpty then some name else none

/-- The name of the first package clause at the start of a line; `fresh` tells whether the text
itself stands at the start of one. -/
def clauseIn? (fresh : Bool) : List Char → Option (List Char)
  | [] => none
  | c :: cs =>
    match if fresh then clauseName? (c :: cs) else none with
    | some name => some name
    | none => clauseIn? (c == '\n') cs

/-- The name of the package that a file declares, or nothing readable. -/
def packageName (source : String) : String :=
  String.ofList ((clauseIn? true source.toList).getD [])

/-- A source file that is no test. -/
def isGoSource (name : String) : Bool :=
  Text.endsWith ".go" name && !Text.endsWith "_test.go" name

/-- A file belongs to the build: it is a source file, a text, and its name and header allow the
platform. -/
def accepted (p : Build.Platform) (name : String) (text : Option String) : Option SourceFile :=
  match text with
  | none => none
  | some text =>
    if isGoSource name && p.allowsName name && p.allowsHeader text then some { name, text }
    else none

/-- The scan goes down into a directory. -/
def descends (module : Module) (path : Path) (name : String) (t : FileTree) : Bool :=
  if Text.startsWith "." name || Text.startsWith "_" name || name == "testdata" then false
  else path == module.root || !t.hasFile [Module.manifestName]

/-- The files of the build among the entries of a directory. -/
def ownFiles (p : Build.Platform) (entries : List (String × FileTree)) : List SourceFile :=
  entries.filterMap fun
    | (name, .file text) => accepted p name text
    | (_, .dir _) => none

mutual

/-- The directories from `path` down with the files of the build in them. -/
def directories (module : Module) (p : Build.Platform) (path : Path) :
    FileTree → List (Path × List SourceFile)
  | .file _ => []
  | .dir entries => (path, ownFiles p entries) :: subdirectories module p path entries

/-- The directories below some entries of the directory at `path`. -/
def subdirectories (module : Module) (p : Build.Platform) (path : Path) :
    List (String × FileTree) → List (Path × List SourceFile)
  | [] => []
  | (name, t) :: rest =>
    let here :=
      if descends module (path ++ [name]) name t then directories module p (path ++ [name]) t
      else []
    here ++ subdirectories module p path rest

end

/-- The path by which a directory of the module is imported, and whether it lies in the directory of
copied packages at the top of the module. -/
def importPath? (module : Module) (dir : Path) : Option (String × Bool) :=
  if module.root.isPrefixOf dir then
    match dir.drop module.root.length with
    | [] => some (module.path, false)
    | ["vendor"] => none
    | "vendor" :: rest => some (Text.join "/" rest, true)
    | below => some (module.path ++ "/" ++ Text.join "/" below, false)
  else none

/-- The package of a directory with these files of the build. -/
def ofFiles? (module : Module) (dir : Path) (files : List SourceFile) : Option PackageDir := do
  let files := files.mergeSort fun a b => decide (a.name ≤ b.name)
  let first ← files.head?
  let (importPath, vendored) ← importPath? module dir
  pure { dir, importPath, name := packageName first.text, files, vendored }

/-- One path comes before another or equals it, name by name. -/
def pathLe : Path → Path → Bool
  | [], _ => true
  | _ :: _, [] => false
  | a :: as, b :: bs => decide (a < b) || (a == b && pathLe as bs)

/-- The directories that a scan comes to, with the files of the build in them. -/
def found (tree : FileTree) (module : Module) (p : Build.Platform) (root : Path) :
    List (Path × List SourceFile) :=
  match tree.find root with
  | .error _ => []
  | .ok (.file text) =>
    match root.getLast? with
    | some name => [(root.dropLast, (accepted p name text).toList)]
    | none => []
  | .ok t => directories module p root t

/-- The packages among some directories. -/
def packagesOf (module : Module) (found : List (Path × List SourceFile)) : List PackageDir :=
  found.filterMap fun x => ofFiles? module x.1 x.2

/-- The packages under a path, by import path and then by directory. -/
def scan (tree : FileTree) (module : Module) (p : Build.Platform) (root : Path) : List PackageDir :=
  let packages := packagesOf module (found tree module p root)
  (packages.mergeSort fun a b => pathLe a.dir b.dir).mergeSort fun a b =>
    decide (a.importPath ≤ b.importPath)

end PackageDir

end CallAtlas
