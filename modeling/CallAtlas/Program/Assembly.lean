import CallAtlas.Error
import CallAtlas.ImportPath
import CallAtlas.Outline.Basic
import CallAtlas.Program.Basic

/-!
# Putting a program together

The files of all packages become one program in two rounds. First every package is registered with
the names and types it declares, so that any package can refer to any other. Then the functions of
each package are numbered in the order of its files, each directly before the function literals
inside it, and the initializer of a package, which sets its variables, stands behind its functions.

What is wrong is recorded and the program is put together as far as possible.
-/

set_option autoImplicit false

namespace CallAtlas

/-- A file of a package with its outline. -/
structure LoadedFile where
  path : String
  name : String
  outline : Outline.File
deriving Inhabited

/-- A package with the outlines of its files in the order of their paths. -/
structure LoadedPackage where
  dir : String
  importPath : String
  name : String
  vendored : Bool
  files : List LoadedFile
deriving Inhabited

/-- A program that is being put together, the import path of the directory that is analysed, and
what is wrong with the files so far. -/
structure Assembly where
  program : Program
  rootPath : String
  diagnostics : List Diagnostic := []
deriving Inhabited

/-- The elements of a list of texts in increasing order, each once. -/
def sortedSet (xs : List String) : List String :=
  (xs.mergeSort fun a b => decide (a ≤ b)).eraseDups

namespace Assembly

/-- The assembly of a module without packages. -/
def start (module rootPath : String) (diagnostics : List Diagnostic) : Assembly where
  program := { module, decls := .initial }
  rootPath := rootPath
  diagnostics := diagnostics

/-! ## Packages and their names -/

/-- The files of a package that name it differently from the first one. -/
def mixedNames (pkg : LoadedPackage) : List Diagnostic :=
  match pkg.files with
  | [] => []
  | first :: rest =>
    let name := first.outline.package
    rest.filterMap fun f =>
      if f.outline.package == name then none
      else some ⟨f.path, 1, .mixedPackages name first.name f.outline.package f.name pkg.dir⟩

/-- The names that a file declares in its package with their lines; methods, initializers and blank
names are not among them. -/
def declaredNames (f : Outline.File) : List (String × Nat) :=
  (f.types.map (fun t => (t.name, t.line)) ++ f.consts ++
    f.vars.flatMap (fun v => v.names.map fun n => (n, v.line)) ++
    (f.functions.filter fun g => g.receiver.isNone && g.name != "init").map
      fun g => (g.name, g.line)).filter fun d => d.1 != "_"

/-- A declared name with the path and the name of its file and its line. -/
structure Declaration where
  name : String
  path : String
  file : String
  line : Nat
deriving DecidableEq, Repr, Inhabited

/-- The declarations of a package in order. -/
def declarations (pkg : LoadedPackage) : List Declaration :=
  pkg.files.flatMap fun f => (declaredNames f.outline).map fun (n, line) =>
    ⟨n, f.path, f.name, line⟩

/-- The declarations whose name has been declared before, `seen` holding those before them. -/
def redeclarations (seen : List Declaration) : List Declaration → List Diagnostic
  | [] => []
  | d :: rest =>
    match seen.find? fun e => e.name == d.name with
    | some e => ⟨d.path, d.line, .redeclared d.name e.file e.line⟩ :: redeclarations seen rest
    | none => redeclarations (seen ++ [d]) rest

/-- Takes in the declaration of a type or alias. -/
def declareType (pkg : String) (u : Universe) (t : Outline.TypeDecl) : Universe :=
  if t.isAlias then
    match t.kind with
    | .defined target => { u with aliases := u.aliases.insert (pkg, t.name) target }
    | _ => u
  else u.declare { pkg, name := t.name, kind := t.kind }

/-- A package that declares these names, before its functions are taken in. -/
def packageOf (pkg : LoadedPackage) (names : List String) : Package where
  path := pkg.importPath
  name := (pkg.files.head?.map fun f => f.outline.package).getD pkg.name
  dir := pkg.dir
  files := pkg.files.map LoadedFile.path
  vendored := pkg.vendored
  members := sortedSet names
  imports := sortedSet (pkg.files.flatMap fun f => f.outline.imports.map Outline.Import.path)

/-- Registers a package with its names and types. -/
def addPackage (a : Assembly) (pkg : LoadedPackage) : Assembly :=
  let declared := declarations pkg
  let types := pkg.files.flatMap fun f => f.outline.types
  { a with
    program := { a.program with
      packages := a.program.packages ++ [packageOf pkg (declared.map Declaration.name)]
      decls := types.foldl (declareType pkg.importPath) a.program.decls }
    diagnostics := a.diagnostics ++ mixedNames pkg ++ redeclarations [] declared }

/-! ## Functions -/

/-- What the functions of a file have in common. -/
structure Place where
  package : String
  imports : Table String String
  file : String

mutual

/-- A function with the number `id`, and behind it the function literals inside it. -/
def expand (place : Place) (id : FuncId) (parent : Option FuncId) (key name : String)
    (kind : FunctionKind) (recvType : Option TypeId) : Outline.Function → List Function
  | ⟨_, line, receiver, signature, typeParams, body, closures⟩ =>
    let (ids, inner) := expandClosures place id key name 1 (id + 1) closures
    { id, key, name, package := some place.package, kind, signature, receiver, recvType, typeParams,
      parent, closures := ids, body, imports := place.imports, file := some place.file
      line } :: inner

/-- The function literals of the function `parent`, numbered from `n` and from the id `next` on: the
ids of the literals, and all functions. -/
def expandClosures (place : Place) (parent : FuncId) (key name : String) (n : Nat) (next : FuncId) :
    List Outline.Function → List FuncId × List Function
  | [] => ([], [])
  | closure :: rest =>
    let first :=
      expand place next (some parent) s!"{key}${n}" s!"{name}${n}" .closure none closure
    let (ids, more) := expandClosures place parent key name (n + 1) (next + first.length) rest
    (next :: ids, first ++ more)

end

/-- The functions of a package while its files are taken in. The statements and literals are those
of its initializer. -/
structure Registration where
  assembly : Assembly
  funcs : Table String FuncId := ∅
  userInits : List FuncId := []
  imports : Table String String := ∅
  stmts : List Outline.Stmt := []
  closures : List Outline.Function := []
deriving Inhabited

namespace Registration

variable (r : Registration)

/-- The number that the next function gets. -/
def nextId : FuncId := r.assembly.program.functions.length

/-- Adds functions behind all others. -/
def append (fs : List Function) : Registration :=
  { r with assembly := { r.assembly with
      program := { r.assembly.program with functions := r.assembly.program.functions ++ fs } } }

/-- Records a problem. -/
def report (d : Diagnostic) : Registration :=
  { r with assembly := { r.assembly with diagnostics := r.assembly.diagnostics ++ [d] } }

/-- Adds a method of a type. -/
def withMethod (place : Place) (f : Outline.Function) (receiver : Outline.Receiver) (id : TypeId)
    (t : NamedType) : Registration :=
  let star := if receiver.pointer then "*" else ""
  let added := r.append (expand place r.nextId none s!"({star}{place.package}.{t.name}).{f.name}"
    s!"({star}{t.name}).{f.name}" .method (some id) f)
  let method : Method := { func := r.nextId, pointerReceiver := receiver.pointer }
  { added with assembly := { added.assembly with program := { added.assembly.program with
      decls := r.assembly.program.decls.addMethod id f.name method } } }

/-- Adds an initializer written by the user, with its number. -/
def withInit (place : Place) (f : Outline.Function) : Registration :=
  let name := s!"init#{r.userInits.length + 1}"
  { r.append (expand place r.nextId none s!"{place.package}.{name}" name .function none f) with
    userInits := r.userInits ++ [r.nextId] }

/-- Adds a function that is known by its name. -/
def withFunction (place : Place) (f : Outline.Function) : Registration :=
  { r.append (expand place r.nextId none s!"{place.package}.{f.name}" f.name .function none f) with
    funcs := r.funcs.insert f.name r.nextId }

/-- Takes in a method: its type must be declared in the same package and have no method of that name
yet. -/
def addMethod (place : Place) (f : Outline.Function) (receiver : Outline.Receiver) : Registration :=
  let u := r.assembly.program.decls
  match u.lookup place.package receiver.typeName with
  | none => r.report ⟨place.file, f.line, .undefined receiver.typeName⟩
  | some id =>
    match u.types[id]? with
    | none => r
    | some t =>
      if t.pkg != place.package then
        r.report ⟨place.file, f.line, .foreignReceiver receiver.typeName⟩
      else if t.methods.contains f.name then
        r.report ⟨place.file, f.line, .repeatedMethod receiver.typeName f.name⟩
      else r.withMethod place f receiver id t

/-- Takes in a function; one whose key is taken is left out, unless it is an initializer. -/
def addFunction (place : Place) (f : Outline.Function) : Registration :=
  match f.receiver with
  | some receiver => r.addMethod place f receiver
  | none =>
    if f.name == "init" then r.withInit place f
    else if (r.assembly.program.funcByKey? s!"{place.package}.{f.name}").isSome then r
    else r.withFunction place f

/-- An import must be loaded if it lies under the directory that is analysed. -/
def checkImport (file : String) (imp : Outline.Import) : Registration :=
  let root := r.assembly.rootPath
  let underRoot := imp.path == root || Text.startsWith (root ++ "/") imp.path
  if (r.assembly.program.package? imp.path).isNone && underRoot && imp.path != "C" then
    r.report ⟨file, imp.line, .missingPackage imp.path⟩
  else r

/-- The name under which a file refers to an import; a dot import is known by its sign. -/
def importKey? (packageNames : Table String String) (imp : Outline.Import) : Option String :=
  match imp.localName with
  | some "_" => none
  | some name => some name
  | none => some ((packageNames.get? imp.path).getD (ImportPath.defaultName imp.path))

/-- The paths of the imports of a file by name. -/
def importTable (packageNames : Table String String) (imports : List Outline.Import) :
    Table String String :=
  Table.ofList (imports.filterMap fun imp =>
    (importKey? packageNames imp).map fun name => (name, imp.path))

/-- The statements that set the variables of a file, whose literals are numbered from `offset`
on. -/
def initStmts (offset : Nat) (vars : List Outline.GlobalVar) : List Outline.Stmt :=
  vars.map fun v => .var v.names v.ty (Outline.shiftAll offset v.values)

/-- Takes in a file of a package. -/
def addFile (packageNames : Table String String) (package : String) (r : Registration)
    (f : LoadedFile) : Registration :=
  let r := f.outline.imports.foldl (fun r imp => r.checkImport f.path imp) r
  let imports := importTable packageNames f.outline.imports
  let r := { r with
    imports := imports.entries.foldl (fun t (e : String × String) => t.insert e.1 e.2) r.imports
    stmts := r.stmts ++ initStmts r.closures.length f.outline.vars
    closures := r.closures ++ f.outline.initClosures }
  f.outline.functions.foldl (fun r g => r.addFunction { package, imports, file := f.path } g) r

/-- Takes in the files of a package. -/
abbrev ofFiles (packageNames : Table String String) (package : String) (a : Assembly)
    (files : List LoadedFile) : Registration :=
  files.foldl (addFile packageNames package) { assembly := a }

end Registration

/-- The initializer of a package as an outline. -/
def initializer (stmts : List Outline.Stmt) (closures : List Outline.Function) :
    Outline.Function where
  name := "init"
  line := 0
  receiver := none
  signature := {}
  typeParams := []
  body := some stmts
  closures := closures

/-- Adds the initializer behind the functions of the package with the number `index`, and
enters them there. -/
def Registration.close (r : Registration) (package file : String) (index : Nat) : Assembly :=
  let added := r.append (expand ⟨package, r.imports, file⟩ r.nextId none s!"{package}.init" "init"
    .initializer none (initializer r.stmts r.closures))
  { added.assembly with
    program := { added.assembly.program with
      packages := added.assembly.program.packages.modify index fun p =>
        { p with funcs := r.funcs, userInits := r.userInits, init := some r.nextId } } }

/-- Takes in the functions of the package with the number `index` and its initializer. -/
def addFunctions (packageNames : Table String String) (a : Assembly) (index : Nat)
    (pkg : LoadedPackage) : Assembly :=
  (Registration.ofFiles packageNames pkg.importPath a pkg.files).close
    pkg.importPath ((pkg.files.head?.map LoadedFile.path).getD "") index

/-- Puts all packages together. -/
def ofPackages (module rootPath : String) (diagnostics : List Diagnostic)
    (packages : List LoadedPackage) : Assembly :=
  let a := packages.foldl addPackage (.start module rootPath diagnostics)
  let packageNames := Table.ofList (a.program.packages.map fun p => (p.path, p.name))
  packages.zipIdx.foldl (fun a (pkg, i) => a.addFunctions packageNames i pkg) a

end Assembly

end CallAtlas
