import CallAtlas.Resolve.State

/-!
# Recording facts

The steps by which a body changes the state: recording a call, a flow, an allocation, an address or
a problem, and making the functions that the analysis adds to a program. A wrapper or a stub is made
once for each key.
-/

set_option autoImplicit false

namespace CallAtlas.Resolve

open Outline (Expr Signature)

/-- Changes the facts of the current function. -/
def modifyFacts (f : Facts → Facts) : M Unit :=
  modify fun s => { s with frame := { s.frame with facts := f s.frame.facts } }

/-- Changes the scope of the current function. -/
def modifyScope (f : Scope → Scope) : M Unit :=
  modify fun s => { s with frame := { s.frame with scope := f s.frame.scope } }

/-- Sets the line that calls and problems are recorded with. -/
def setLine (line : Nat) : M Unit := modify fun s => { s with frame := { s.frame with line } }

/-- Records a call and gives its number. -/
def addSite (target : CallTarget) (recv : Option Origin) (args : List Origin) : M Nat := do
  let frame := (← get).frame
  modifyFacts fun facts =>
    { facts with sites := facts.sites ++ [{ line := frame.line, target, recv, args }] }
  pure frame.facts.sites.length

/-- Records a flow, unless it comes from nowhere. -/
def addFlow (source : Origin) (sink : Slot) : M Unit :=
  if source.isEmpty then pure ()
  else modifyFacts fun facts => { facts with flows := facts.flows ++ [{ source, sink }] }

/-- Records a problem. -/
def report (problem : Problem) : M Unit :=
  modify fun s =>
    { s with diagnostics := s.diagnostics ++ [⟨s.frame.file, s.frame.line, problem⟩] }

/-- Reports the declared types in a type that no loaded package declares. -/
def checkType : Ty → M Unit
  | .named pkg name => do
    let s ← get
    if pkg.isEmpty || s.program.decls.declares pkg name then pure ()
    else
      match s.program.package? pkg with
      | none => pure ()
      | some package =>
        if pkg == s.frame.pkg then
          if s.isImplicit name then pure () else report (.undefined name)
        else report (.undefinedIn package.name name)
  | .pointer t | .slice t | .map t | .chan t => checkType t
  | _ => pure ()

/-- Reports a selection that finds nothing, if the type of the operand is known for sure. -/
def checkMember (operand : Expr) (ty : Ty) (name : String) : M Unit := do
  let s ← get
  match s.program.decls.idOf ty with
  | none => pure ()
  | some id =>
    if s.program.decls.isClosed id && s.isSettled operand then
      report (.missingMember ((chainText? operand).getD ty.display) name ty)
    else pure ()

/-- A function as a value; its address is taken. -/
def funcValue (id : FuncId) : M Value := do
  modifyFacts fun facts => { facts with addressTaken := facts.addressTaken ++ [id] }
  let signature := (((← get).program.functions[id]?).map Function.signature).getD {}
  pure {
    ty := .func signature.params.length signature.results.length
    origin := .atom (.func id) }

/-- The declared type that a composite literal or `new` allocates; interfaces are not allocated. -/
def allocate (ty : Ty) : M (Option TypeId) := do
  match ty with
  | .named pkg name =>
    let decls := (← get).program.decls
    match decls.lookup pkg name with
    | none => pure none
    | some id =>
      if decls.isInterface id then pure none
      else
        modifyFacts fun facts => { facts with allocations := facts.allocations ++ [id] }
        pure (some id)
  | _ => pure none

/-! ## Functions made by the analysis -/

/-- Adds a function with its facts, unless there is one with its key. -/
def addFunction (f : Function) (facts : Facts) : M FuncId := do
  let s ← get
  match s.program.funcByKey? f.key with
  | some existing => pure existing
  | none =>
    set (s.withFunction f facts)
    pure s.program.functions.length

/-- A function that only calls `f`; its key is that of `f` with an ending. -/
def wrapped (f : Function) (ending : String) (kind : FunctionKind) (signature : Signature) :
    Function where
  key := f.key ++ ending
  name := f.name ++ ending
  package := none
  kind := kind
  signature := signature

/-- Adds a function that only calls `target`. -/
def wrapper (target : FuncId) (ending : String) (kind : FunctionKind) (signature : Signature) :
    M FuncId := do
  let base := ((← get).program.functions[target]?).getD default
  addFunction (wrapped base ending kind signature)
    { sites := [{ line := 0, target := .static target }] }

/-- A method bound to its receiver. -/
def boundMethod (method : FuncId) : M FuncId := do
  let f := ((← get).program.functions[method]?).getD default
  wrapper method "$bound" .bound f.signature

/-- The receiver of a method as its first parameter. -/
def receiverParam (u : Universe) (f : Function) : List Outline.Param :=
  match f.recvType.bind fun t => u.types[t]? with
  | some t => [⟨none, t.ty⟩]
  | none => []

/-- A method that takes its receiver as first parameter. -/
def thunk (method : FuncId) : M FuncId := do
  let program := (← get).program
  let f := (program.functions[method]?).getD default
  wrapper method "$thunk" .thunk
    { f.signature with params := receiverParam program.decls f ++ f.signature.params }

/-- The text of the type argument for a type parameter, found in the types of the arguments. -/
def inferred (f : Function) (argTypes : List Ty) (typeParam : String) : String :=
  ((f.signature.params.zip argTypes).findSome? fun (param, arg) =>
    match param.ty with
    | .param p => if p == typeParam && !arg.isUnknown then some arg.display else none
    | .slice (.param p) =>
      if p == typeParam && !arg.element.isUnknown then some arg.element.display else none
    | _ => none).getD typeParam

/-- A generic function at the given type arguments, or else at those found in the types of the
arguments; any other function stays. -/
def instantiate (id : FuncId) (typeArgs argTypes : List Ty) : M FuncId := do
  let f := ((← get).program.functions[id]?).getD default
  if f.isGeneric then
    let args :=
      if typeArgs.isEmpty then f.typeParams.map (inferred f argTypes) else typeArgs.map Ty.display
    wrapper id ("[" ++ Text.join ", " args ++ "]") .instantiation f.signature
  else pure id

/-- The stub of a function of a package that is not loaded. -/
def external (path name : String) : M FuncId :=
  addFunction { key := path ++ "." ++ name, name, package := some path, kind := .external } {}

/-- Declares a variable: a variable of the package in an initializer, and a local one elsewhere. The
first known type of a variable of a package stays; a local variable takes the later type. -/
def declare (name : String) (ty : Ty) (origin : Origin) : M Unit := do
  if name == "_" then pure ()
  else
    let s ← get
    if s.frame.isInitializer then
      let key := (s.frame.pkg, name)
      let old := (s.program.globals.get? key).getD .unknown
      let new := if old.isUnknown then ty else old
      set { s with program := { s.program with globals := s.program.globals.insert key new } }
      addFlow origin (.global s.frame.pkg name)
    else
      let old := (s.frame.scope.vars.get? name).getD .unknown
      let changed := !old.isUnknown && !ty.isUnknown && old != ty
      let new := if old.isUnknown || changed then ty else old
      modifyScope fun scope =>
        { scope with
          vars := scope.vars.insert name new
          redeclared := if changed then scope.redeclared ++ [name] else scope.redeclared }
      addFlow origin (.localVar s.frame.id name)

end CallAtlas.Resolve
