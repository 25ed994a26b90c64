import CallAtlas.Program.Types

/-!
# Programs

A program is the list of its packages, its functions and its declared types, and for every function
the facts that decide calls: its call sites, the types it allocates, the functions whose address it
takes, and the flow of values through it. Call graphs are built from these facts alone.
-/

set_option autoImplicit false

namespace CallAtlas

/-- What a function is. An external function belongs to a package that is not loaded. The last four
are made by the analysis: the initializer of a package, and wrappers that bind a method to its
receiver, take the receiver as first parameter, or stand for a generic function at some types. -/
inductive FunctionKind where
  | function
  | method
  | closure
  | external
  | initializer
  | bound
  | thunk
  | instantiation
deriving DecidableEq, Repr, Inhabited

namespace FunctionKind

/-- How a function that is made by the analysis is described. -/
def description : FunctionKind → Option String
  | .initializer => some "package initializer"
  | .bound => some "bound method wrapper"
  | .thunk => some "method expression thunk"
  | .instantiation => some "generic instantiation"
  | _ => none

/-- The function is made by the analysis. -/
def isSynthetic (k : FunctionKind) : Bool := k.description.isSome

end FunctionKind

/-- A function of a program. The id is its number in the program, the key its name in the whole
program and the name the one in its package; wrappers belong to no package. `imports` gives the
paths of the imports of its file by name. -/
structure Function where
  id : FuncId := 0
  key : String
  name : String
  package : Option String
  kind : FunctionKind
  signature : Outline.Signature := {}
  receiver : Option Outline.Receiver := none
  recvType : Option TypeId := none
  typeParams : List String := []
  parent : Option FuncId := none
  closures : List FuncId := []
  body : Option (List Outline.Stmt) := none
  imports : Table String String := ∅
  file : Option String := none
  line : Nat := 0
deriving Inhabited

namespace Function

variable (f : Function)

/-- The function under a number. -/
def numbered (id : FuncId) : Function := { f with id }

/-- It has type parameters. -/
def isGeneric : Bool := !f.typeParams.isEmpty

/-- A name under which a value can flow; the blank name is none. -/
def properName? (name : Option String) : Option String := name.filter fun n => n != "_"

/-- The name under which the values of a parameter flow. -/
def paramKey (i : Nat) : String :=
  (properName? (f.signature.params[i]?.bind Outline.Param.name)).getD s!"$p{i}"

/-- The name under which the values of the receiver flow. -/
def receiverKey : String := (properName? (f.receiver.bind Outline.Receiver.var)).getD "$recv"

/-- The types of the results. -/
def resultTypes : List Ty := f.signature.results.map Outline.Param.ty

end Function

/-- A package: its functions by name without methods and user-written initializers, all names it
declares, and the paths it imports in order. -/
structure Package where
  path : String
  name : String
  dir : String := ""
  files : List String := []
  vendored : Bool := false
  funcs : Table String FuncId := ∅
  members : List String := []
  imports : List String := []
  userInits : List FuncId := []
  init : Option FuncId := none
deriving Inhabited

/-- A value that is followed through a program: an object of a declared type, a function, or a value
of unknown origin. -/
inductive Atom where
  | type (id : TypeId)
  | func (id : FuncId)
  | opaqueValue
deriving DecidableEq, Repr, Inhabited

/-- A place that values flow through: a local variable, a result of a function, a result of a call
site, a field, or a variable of a package. -/
inductive Slot where
  | localVar (func : FuncId) (name : String)
  | result (func : FuncId) (index : Nat)
  | callResult (func : FuncId) (site index : Nat)
  | field (owner : TypeId) (name : String)
  | global (pkg name : String)
deriving DecidableEq, Repr, Inhabited

/-- Where the value of an expression can come from. -/
structure Origin where
  slots : List Slot := []
  atoms : List Atom := []
deriving DecidableEq, Repr, Inhabited

namespace Origin

/-- From one slot. -/
def slot (s : Slot) : Origin := { slots := [s] }

/-- From one atom. -/
def atom (a : Atom) : Origin := { atoms := [a] }

/-- From somewhere unknown. -/
def unseen : Origin := .atom .opaqueValue

/-- From nowhere. -/
def isEmpty (o : Origin) : Bool := o.slots.isEmpty && o.atoms.isEmpty

end Origin

/-- Values flow from an origin into a slot. -/
structure Flow where
  source : Origin
  sink : Slot
deriving DecidableEq, Repr, Inhabited

/-- What a call site calls: a known function, a method of an interface, or a function value. -/
inductive CallTarget where
  | static (func : FuncId)
  | invoke (iface : TypeId) (method : String)
  | dynamic (callee : Origin)
deriving DecidableEq, Repr, Inhabited

/-- A call with the origins of its receiver and its arguments. -/
structure CallSite where
  line : Nat
  target : CallTarget
  recv : Option Origin := none
  args : List Origin := []
deriving DecidableEq, Repr, Inhabited

/-- What decides the calls of a function. -/
structure Facts where
  sites : List CallSite := []
  allocations : List TypeId := []
  addressTaken : List FuncId := []
  flows : List Flow := []
deriving DecidableEq, Repr, Inhabited

/-- A whole program. Functions and facts are numbered by their position. -/
structure Program where
  module : String := ""
  packages : List Package := []
  functions : List Function := []
  decls : Universe := {}
  facts : List Facts := []
  globals : Table (String × String) Ty := ∅
deriving Inhabited

namespace Program

variable (p : Program)

/-- The number of the last element that satisfies a condition. -/
def lastIdx? {α : Type} (q : α → Bool) (xs : List α) : Option Nat :=
  (xs.reverse.findIdx? q).map fun i => xs.length - 1 - i

/-- The function with a key; of several the last. -/
def funcByKey? (key : String) : Option FuncId := lastIdx? (fun f => f.key == key) p.functions

/-- The package with a path; of several the last. -/
def package? (path : String) : Option Package := p.packages.reverse.find? fun q => q.path == path

/-- The function of a package with a name. -/
def packageFunc? (pkg name : String) : Option FuncId := do (← p.package? pkg).funcs.get? name

/-- The package declares a name. -/
def isMember (pkg name : String) : Bool :=
  match p.package? pkg with
  | some q => q.members.contains name
  | none => false

/-- The facts of a function. -/
def factsOf (id : FuncId) : Facts := p.facts[id]?.getD {}

/-- The `main` functions of all main packages. -/
def mainFunctions : List FuncId :=
  (p.packages.filter fun q => q.name == "main").filterMap fun q => q.funcs.get? "main"

/-- The functions whose address some function takes, in increasing order. -/
def addressTaken : List FuncId :=
  (List.range p.functions.length).filter fun id =>
    p.facts.any fun f => f.addressTaken.contains id

/-- The function and those around it, the innermost first. -/
def chainFrom : (fuel : Nat) → FuncId → List FuncId
  | 0, _ => []
  | fuel + 1, id =>
    id :: match (p.functions[id]?).bind Function.parent with
      | some parent => chainFrom fuel parent
      | none => []

/-- The function and those around it, the innermost first. -/
def chain (id : FuncId) : List FuncId := p.chainFrom (p.functions.length + 1) id

end Program

end CallAtlas
