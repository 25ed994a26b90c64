import CallAtlas.Module
import CallAtlas.Ty

/-!
# What can go wrong

Every error is a cause; the texts are in the functions `message`. A program that does not load is
described by the list of all problems found in its files.
-/

set_option autoImplicit false

namespace CallAtlas

/-- What is wrong in a file. -/
inductive Problem where
  | syntaxError
  | unusedImport (path : String)
  | mixedPackages (first firstFile second secondFile dir : String)
  | redeclared (name file : String) (line : Nat)
  | missingPackage (path : String)
  | undefined (name : String)
  | undefinedIn (qualifier name : String)
  | foreignReceiver (typeName : String)
  | repeatedMethod (typeName name : String)
  | missingMember (subject : String) (name : String) (ty : Ty)
deriving DecidableEq, Repr, Inhabited

/-- The text of a problem. -/
def Problem.message : Problem → String
  | .syntaxError => "syntax error"
  | .unusedImport path => s!"\"{path}\" imported and not used"
  | .mixedPackages first firstFile second secondFile dir =>
    s!"found packages {first} ({firstFile}) and {second} ({secondFile}) in {dir}"
  | .redeclared name file line =>
    s!"{name} redeclared in this block (other declaration at {file}:{line})"
  | .missingPackage path => s!"could not import {path} (no Go files found for package)"
  | .undefined name => s!"undefined: {name}"
  | .undefinedIn qualifier name => s!"undefined: {qualifier}.{name}"
  | .foreignReceiver typeName => s!"cannot define new methods on non-local type {typeName}"
  | .repeatedMethod typeName name => s!"method {typeName}.{name} already declared"
  | .missingMember subject name ty =>
    s!"{subject}.{name} undefined (type {ty.display} has no field or method {name})"

/-- A problem with its file and line. -/
structure Diagnostic where
  file : String
  line : Nat
  problem : Problem
deriving DecidableEq, Repr, Inhabited

/-- The text of a diagnostic. -/
def Diagnostic.message (d : Diagnostic) : String := s!"{d.file}:{d.line}: {d.problem.message}"

/-- Why a store refuses. `unavailable`: its tables are missing or its file is no database. -/
inductive StoreError where
  | unavailable
  | invalid (reason : String)
deriving DecidableEq, Repr, Inhabited

/-- The two streams between the graph and the store. -/
inductive Stream where
  | nodes
  | edges
deriving DecidableEq, Repr, Inhabited

/-- The name of an item of a stream. -/
def Stream.item : Stream → String
  | .nodes => "node"
  | .edges => "edge"

/-- Why an analysis fails. -/
inductive Error where
  | moduleNotFound (dir : String) (failure : ModuleFailure)
  | packageLoad (diagnostics : List Diagnostic)
  | unsupportedAlgorithm (name : String)
  | noMainPackage
  | emptyCallGraph (algorithm : String)
  | streamClosed (stream : Stream)
  | cancelled
  | store (error : StoreError)
  | config
  | io (failure : IoFailure)
  | writerCrashed (stream : Stream)
deriving DecidableEq, Repr, Inhabited

/-- The text of a refusal of a store. -/
def StoreError.message : StoreError → String
  | .unavailable => "sqlite: unavailable"
  | .invalid reason => reason

/-- The text of an error. -/
def Error.message : Error → String
  | .moduleNotFound dir failure => s!"go.mod not found for {dir}: {failure.message}"
  | .packageLoad diagnostics =>
    let first := (diagnostics.head?.map Diagnostic.message).getD ""
    s!"package loading failed with {diagnostics.length} error(s): {first}"
  | .unsupportedAlgorithm name => s!"unsupported call graph algorithm: {name}"
  | .noMainPackage => "no main package found"
  | .emptyCallGraph algorithm => s!"{algorithm} analysis produced an empty call graph"
  | .streamClosed stream =>
    s!"call graph traversal failed: {stream.item} channel closed by its consumer"
  | .cancelled => "analysis cancelled"
  | .store error => s!"store error: {error.message}"
  | .config => "configuration error"
  | .io failure => s!"I/O error: {failure.message}"
  | .writerCrashed stream => s!"{stream.item} writer thread panicked"

/-- The module that a directory belongs to. -/
def Disk.module (d : Disk) (start : String) : Except Error Module :=
  match d.locate start with
  | .error failure => .error (.moduleNotFound start (.unreachable failure))
  | .ok path =>
    match Module.manifestDir? d.tree path with
    | none => .error (.moduleNotFound (d.display path) .noManifest)
    | some root =>
      match d.tree.read (root ++ [Module.manifestName]) with
      | .error failure => .error (.io failure)
      | .ok manifest =>
        match Module.declaredPath? manifest with
        | some path => .ok { path, root }
        | none => .error (.moduleNotFound (d.display root) .undeclared)

end CallAtlas
