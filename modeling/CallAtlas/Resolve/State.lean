import CallAtlas.Error
import CallAtlas.Program.Basic

/-!
# Resolving names

The bodies of a program are read one after the other. While a body is read, the state holds the
program, the scopes of the bodies that have been read, and a frame for the current one: where it
stands, which names it has declared, and the facts found so far.

This module holds the frame and every question about names that can be answered without reading
further.
-/

set_option autoImplicit false

namespace CallAtlas.Resolve

open Outline (Expr)

/-- The names declared in a body: the variables with their types, the local types, and the variables
that were declared again with another type. -/
structure Scope where
  vars : Table String Ty := ∅
  types : List String := []
  redeclared : List String := []
deriving Inhabited

/-- The body that is being read. -/
structure Frame where
  id : FuncId
  pkg : String
  imports : Table String String
  file : String
  line : Nat
  isInitializer : Bool
  scope : Scope := {}
  facts : Facts := {}
deriving Inhabited

/-- The program, the scopes of all functions by number, what is wrong so far, and the current
frame. -/
structure State where
  program : Program
  scopes : List Scope := []
  diagnostics : List Diagnostic := []
  frame : Frame
deriving Inhabited

/-- An expression has a type and an origin; a call has those of each result. -/
structure Value where
  ty : Ty := .unknown
  origin : Origin := {}
  results : List (Ty × Origin) := []
deriving Inhabited

namespace Value

/-- A value of unknown type and origin. -/
def unseen : Value := { origin := .unseen }

/-- The value of a call with these results. -/
def ofResults (results : List (Ty × Origin)) : Value :=
  let (ty, origin) := results.head?.getD (.unknown, {})
  { ty, origin, results }

end Value

/-- Reads and changes the state. -/
abbrev M := StateM State

/-- The import name of a dot import. -/
def dotImport : String := "."

namespace State

variable (s : State)

/-- The functions around the current one, the innermost first. -/
def enclosing : List FuncId := (s.program.chain s.frame.id).tail

/-- The scope of a function; that of the current one is in its frame. -/
def scopeOf (id : FuncId) : Scope :=
  if id == s.frame.id then s.frame.scope else s.scopes[id]?.getD {}

/-- The function that declares a local variable, and the type of the variable. -/
def localVar? (name : String) : Option (FuncId × Ty) :=
  match s.frame.scope.vars.get? name with
  | some ty => some (s.frame.id, ty)
  | none =>
    s.enclosing.findSome? fun id =>
      ((s.scopes[id]?.getD {}).vars.get? name).map fun ty => (id, ty)

/-- The name is a local variable. -/
def isLocal (name : String) : Bool := (s.localVar? name).isSome

/-- The name is a type that the function or one around it declares. -/
def isLocalType (name : String) : Bool :=
  s.frame.scope.types.contains name ||
    s.enclosing.any fun id => (s.scopes[id]?.getD {}).types.contains name

/-- The name is a type parameter of the function or one around it. -/
def isTypeParam (name : String) : Bool :=
  (s.program.chain s.frame.id).any fun id =>
    match s.program.functions[id]? with
    | some f => f.typeParams.contains name
    | none => false

/-- The name needs no declaration that could be seen. -/
def isImplicit (name : String) : Bool :=
  name == "error" || name == "any" || Ty.basicNames.contains name ||
    Ty.builtinFunctions.contains name || s.frame.imports.contains dotImport || s.isLocalType name ||
    s.isTypeParam name

/-- The path of the import that a name stands for, unless a local variable hides it. -/
def importOf? (name : String) : Option String :=
  if s.isLocal name then none else s.frame.imports.get? name

/-- The name of an import and its path, if the operand of a selector is one. -/
def qualifier? : Expr → Option (String × String)
  | .ident name => (s.importOf? name).map fun path => (name, path)
  | _ => none

/-- The function of the current package with a name. -/
def ownFunc? (name : String) : Option FuncId := s.program.packageFunc? s.frame.pkg name

/-- The current package declares the name. -/
def isOwnMember (name : String) : Bool := s.program.isMember s.frame.pkg name

/-- A variable of a package. -/
def globalValue (pkg name : String) : Value :=
  { ty := (s.program.globals.get? (pkg, name)).getD .unknown, origin := .slot (.global pkg name) }

/-- The type that a plain name stands for in the place of a value. -/
def typeName? (name : String) : Option Ty :=
  if s.isLocal name then none
  else if name == "error" then some .error
  else if name == "any" then some .interface
  else if Ty.basicNames.contains name then some (.basic name)
  else if (s.program.decls.lookup s.frame.pkg name).isSome || s.isLocalType name then
    some (.named s.frame.pkg name)
  else if s.isTypeParam name then some (.param name)
  else none

/-- The type that an expression stands for in the place of a value. -/
def typeOperand? : Expr → Option Ty
  | .type ty => some ty
  | .ident name => s.typeName? name
  | .selector (.ident qualifier) name => do
    let path ← s.importOf? qualifier
    let _ ← s.program.decls.lookup path name
    pure (.named path name)
  | .unary .deref inner => (typeOperand? inner).map Ty.pointer
  | .index base _ _ => typeOperand? base
  | _ => none

/-- The type found for an expression can be relied on. -/
def isSettled : Expr → Bool
  | .ident name =>
    match s.localVar? name with
    | some (owner, _) => !(s.scopeOf owner).redeclared.contains name
    | none => s.isOwnMember name
  | .selector inner _ | .unary .address inner | .unary .deref inner => isSettled inner
  | .call .. | .composite .. | .new _ | .assert .. | .convert .. => true
  | _ => false

/-- The current function or one around it is a method of the type that a method belongs to. -/
def isWithinReceiver (method : FuncId) : Bool :=
  match (s.program.functions[method]?).bind Function.recvType with
  | none => false
  | some recv =>
    (s.program.chain s.frame.id).any fun id =>
      (s.program.functions[id]?).bind Function.recvType == some recv

/-- Adds a function with its facts under the next number. -/
def withFunction (f : Function) (facts : Facts) : State :=
  { s with
    program := { s.program with
      functions := s.program.functions ++ [f.numbered s.program.functions.length]
      facts := s.program.facts ++ [facts] }
    scopes := s.scopes ++ [({} : Scope)] }

/-- The function literal with a number in the current function. -/
def closure? (index : Nat) :
    Option FuncId := do (← s.program.functions[s.frame.id]?).closures[index]?

end State

/-- The text of a name or a chain of selectors. -/
def chainText? : Expr → Option String
  | .ident name => some name
  | .selector inner name => (chainText? inner).map fun t => t ++ "." ++ name
  | _ => none

/-- The number of results of a call through a value of this type. -/
def resultCount : Ty → Nat
  | .func _ results => results
  | _ => 1

end CallAtlas.Resolve
