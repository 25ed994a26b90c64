import CallAtlas.Outline.Lowering
import CallAtlas.Outline.Qualifiers
import CallAtlas.Source.File

/-!
# The outline of a file

The declarations of a file are taken in order: an import is known to the declarations behind it, a
later package clause replaces an earlier one, and statements at the top of a file are ignored unless
they declare something. `ofSource?` is the way from a text to its outline.
-/

set_option autoImplicit false

namespace CallAtlas.Outline

/-- The name under which a file knows an import; blank and dot imports have none. -/
def importName? (packageNames : Table String String) (imp : Import) : Option String :=
  match imp.localName with
  | some "_" | some "." => none
  | some name => some name
  | none => some ((packageNames.get? imp.path).getD (ImportPath.defaultName imp.path))

/-- The outline of an import. -/
def importOf (d : Source.ImportDecl) : Import := ⟨d.name, d.path, d.line⟩

/-- The imports of a declaration become known under their names. -/
def Context.addImports (c : Context) (imports : List Import) : Context :=
  { c with
    aliases := imports.foldl (fun aliases imp =>
      match importName? c.packageNames imp with
      | some name => aliases.insert name imp.path
      | none => aliases) c.aliases }

/-- The outline of a function or method. -/
def functionOf (c : Context) (f : Source.FuncDecl) (receiver : Option Receiver) : Function :=
  let receiverTypeParams :=
    match receiver, f.receiver with
    | some _, some r => receiverParamsAll r.entries
    | _, _ => []
  let typeParams := namesOf f.typeParams ++ receiverTypeParams
  let c := { c with typeParams }
  let lowered := f.body.map fun body => (lowerStmts c body).run []
  { name := f.name, line := f.pos.line, receiver, signature := signatureOf c f.params f.results,
    typeParams, body := lowered.map Prod.fst, closures := (lowered.map Prod.snd).getD [] }

/-- The outline of a declaration of a type. -/
def typeDeclOf (c : Context) : Source.TypeSpec → TypeDecl
  | .mk line name params ty isAlias =>
    { name, line, isAlias, kind := kindOf { c with typeParams := namesOf params } isAlias ty }

/-- What has been read of a file: what its names stand for, and its outline so far. -/
structure Progress where
  context : Context
  file : File := {}

/-- Takes in the next declaration of a file. -/
def Progress.add (p : Progress) : Source.Decl → Progress
  | .package name => { p with file := { p.file with package := name } }
  | .imports specs =>
    let imports := specs.map importOf
    { context := p.context.addImports imports
      file := { p.file with imports := p.file.imports ++ imports } }
  | .func f =>
    match f.receiver with
    | none =>
      { p with file := { p.file with functions := p.file.functions ++
        [functionOf p.context f none] } }
    | some r =>
      match receiverOf r with
      | none => p
      | some receiver =>
        let function := functionOf p.context f (some receiver)
        { p with file := { p.file with functions := p.file.functions ++ [function] } }
  | .stmt (.types specs) =>
    { p with file := { p.file with types := p.file.types ++ specs.map (typeDeclOf p.context) } }
  | .stmt (.var line names ty values) =>
    let (values, initClosures) := (lowerExprs p.context values).run p.file.initClosures
    let var := { names, ty := ty.map (typeOf p.context), values, line }
    { p with file := { p.file with vars := p.file.vars ++ [var], initClosures } }
  | .stmt (.const names _ _) =>
    { p with file := { p.file with consts := p.file.consts ++ names } }
  | .stmt _ => p

/-- The name that an import must be used by: the one it is given, or the one of its package
if that is known. -/
def checkedName? (packageNames : Table String String) (imp : Import) : Option String :=
  match imp.localName with
  | some "_" | some "." => none
  | some name => some name
  | none =>
    if imp.path == "C" then none
    else
      match packageNames.get? imp.path with
      | some name => some name
      | none =>
        if ImportPath.isStandard imp.path then some (ImportPath.defaultName imp.path) else none

/-- The imports whose name qualifies nothing. -/
def unusedOf (packageNames : Table String String) (used : List String) (imports : List Import) :
    List Import :=
  imports.filter fun imp =>
    match checkedName? packageNames imp with
    | some name => !used.contains name
    | none => false

/-- The outline of a file from its declarations. -/
def ofDecls (package : String) (packageNames : Table String String) (decls : List Source.Decl) :
    File :=
  let progress := decls.foldl Progress.add { context := { package, packageNames } }
  let used := decls.flatMap declQualifiers
  { progress.file with unusedImports := unusedOf packageNames used progress.file.imports }

/-- The outline of a text, or nothing if it has a syntax error. -/
def ofSource? (package : String) (packageNames : Table String String) (source : String) :
    Option File :=
  (Source.parse? source).map (ofDecls package packageNames)

end CallAtlas.Outline
