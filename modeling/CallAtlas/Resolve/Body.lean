import CallAtlas.Program.Assembly
import CallAtlas.Resolve.Expr

/-!
# Reading bodies

Statements declare variables, let values flow into them, and hold expressions. `resolve` reads all
bodies of a program, those of the initializers first, so that the types of the variables of a
package are known to every other body.
-/

set_option autoImplicit false

namespace CallAtlas.Resolve

open Outline (Expr Stmt Clause)

/-- What is assigned to `count` places: one call may give several values, and another single value a
flag. -/
def spread (count : Nat) : List Value → List (Ty × Origin)
  | [value] =>
    if 1 < count then
      if 1 < value.results.length then value.results
      else [(value.ty, value.origin), (.basic "bool", {})]
    else [(value.ty, value.origin)]
  | found => found.map fun value => (value.ty, value.origin)

/-- Reads the values of an assignment to `count` places; what is missing has unknown origin. -/
def readValues (values : List Expr) (count : Nat) : M (List (Ty × Origin)) := do
  let found := spread count (← readExprs values)
  pure (found ++ List.replicate (count - found.length) (.unknown, .unseen))

/-- The slot of a field that is selected on an operand that has been read. -/
def fieldSlot (operand : Expr) (name : String) (value : Value) : M (Option Slot) := do
  match (← get).program.decls.member value.ty name with
  | some (.field owner _) => pure (some (.field owner name))
  | some _ => pure none
  | none =>
    checkMember operand value.ty name
    pure none

/-- The slot that an assignment to an expression writes. -/
def sink (target : Expr) : M (Option Slot) := do
  let s ← get
  match target with
  | .ident name =>
    if name == "_" then pure none
    else
      match s.localVar? name with
      | some (owner, _) => pure (some (.localVar owner name))
      | none => pure (if s.isOwnMember name then some (.global s.frame.pkg name) else none)
  | .selector operand name =>
    match s.qualifier? operand with
    | some (_, path) =>
      pure (if (s.program.package? path).isSome then some (.global path name) else none)
    | none => fieldSlot operand name (← readExpr operand)
  | other =>
    let _ ← readExpr other
    pure none

/-- Values flow into a slot, if there is one. -/
def flowTo (origin : Origin) : Option Slot → M Unit
  | some slot => addFlow origin slot
  | none => pure ()

/-- Values flow into the targets of an assignment. -/
def assignAll : List (Expr × (Ty × Origin)) → M Unit
  | [] => pure ()
  | (target, (_, origin)) :: rest => do
    flowTo origin (← sink target)
    assignAll rest

/-- Declares variables with the types and origins of their values; a declared type wins. -/
def declareAll (declared : Option Ty) : List (String × (Ty × Origin)) → M Unit
  | [] => pure ()
  | (name, (ty, origin)) :: rest => do
    declare name (declared.getD ty) origin
    declareAll declared rest

/-- Values flow into the results of the current function from number `i` on. -/
def returnAll (i : Nat) : List (Ty × Origin) → M Unit
  | [] => pure ()
  | (_, origin) :: rest => do
    addFlow origin (.result (← get).frame.id i)
    returnAll (i + 1) rest

/-- The types of the variables of a range over a value of this type. -/
def rangeTypes (ty : Ty) : List Ty :=
  match ty.deref with
  | .slice elem => [.basic "int", elem]
  | .map elem => [.unknown, elem]
  | .chan elem => [elem]
  | .basic "string" => [.basic "int", .basic "rune"]
  | .basic _ => [.basic "int"]
  | _ => []

/-- Declares or sets the variables of a range. -/
def rangeAll (define : Bool) : List String → List Ty → M Unit
  | [], _ => pure ()
  | name :: rest, types => do
    if define then declare name (types.head?.getD .unknown) .unseen
    else flowTo .unseen (← sink (.ident name))
    rangeAll define rest types.tail

/-- Reports unknown types from the left. -/
def checkTypes : List Ty → M Unit
  | [] => pure ()
  | ty :: rest => do
    checkType ty
    checkTypes rest

/-- Sets the type of a local variable and gives the one it had. -/
def bindVar (name : String) (ty : Ty) : M (Option Ty) := do
  let old := (← get).frame.scope.vars.get? name
  modifyScope fun scope => { scope with vars := scope.vars.insert name ty }
  pure old

/-- The type of the variable of a type switch in a case. -/
def clauseTy (types : List Ty) (otherwise : Ty) : Ty :=
  match types with
  | [ty] => if ty.isUnknown then otherwise else ty
  | _ => otherwise

/-- Declares the variable of a type switch. -/
def declareSwitched (binding : Option String) (value : Value) : M Unit :=
  match binding with
  | some name => declare name .unknown value.origin
  | none => pure ()

/-- What comes before the statements of a case: in a case with one type the variable has that type.
The answer is the type that the variable had. -/
def openClause (binding : Option String) (ty : Ty) (types : List Ty) : M (Option Ty) := do
  checkTypes types
  match binding with
  | some name => bindVar name (clauseTy types ty)
  | none => pure none

/-- The variable gets back the type that it had. -/
def closeClause : Option String → Option Ty → M Unit
  | some name, some ty => do let _ ← bindVar name ty
  | _, _ => pure ()

mutual

/-- Reads a statement. -/
def readStmt : Stmt → M Unit
  | .define names values => do
    let found ← readValues values names.length
    declareAll none (names.zip found)
  | .var names ty values => do
    checkTypes ty.toList
    let found ← readValues values names.length
    declareAll ty (names.zip found)
  | .assign targets values => do
    let found ← readValues values targets.length
    assignAll (targets.zip found)
  | .range names define e => do
    let value ← readExpr e
    rangeAll define names (rangeTypes value.ty)
  | .typeSwitch binding e clauses => do
    let value ← readExpr e
    let binding := Function.properName? binding
    declareSwitched binding value
    readClauses binding value.ty clauses
  | .localTypes names => modifyScope fun scope => { scope with types := scope.types ++ names }
  | .ret values => do
    let s ← get
    let results := (((s.program.functions[s.frame.id]?).map Function.resultTypes).getD []).length
    returnAll 0 (← readValues values results)
  | .expr e => do let _ ← readExpr e

/-- Reads statements in order. -/
def readStmts : List Stmt → M Unit
  | [] => pure ()
  | s :: rest => do
    readStmt s
    readStmts rest

/-- Reads a case of a type switch. -/
def readClause (binding : Option String) (ty : Ty) : Clause → M Unit
  | .mk types body => do
    let old ← openClause binding ty types
    readStmts body
    closeClause binding old

/-- Reads the cases of a type switch in order. -/
def readClauses (binding : Option String) (ty : Ty) : List Clause → M Unit
  | [] => pure ()
  | clause :: rest => do
    readClause binding ty clause
    readClauses binding ty rest

end

/-- The frame in which the body of a function is read: its receiver, parameters and named results
are variables, and the named results flow into the results. -/
def frameOf (id : FuncId) (f : Function) : Frame :=
  let pkg := f.package.getD ""
  let receiver :=
    match f.receiver with
    | some r =>
      let base := Ty.named pkg r.typeName
      [(f.receiverKey, if r.pointer then .pointer base else base)]
    | none => []
  let params := f.signature.params.zipIdx.map fun (p, i) => (f.paramKey i, p.ty)
  let results := f.signature.results.zipIdx.filterMap fun (p, i) =>
    (Function.properName? p.name).map fun name => (name, p.ty, i)
  { id, pkg, imports := f.imports, file := f.file.getD "", line := f.line
    isInitializer := f.kind == .initializer
    scope := { vars := Table.ofList (receiver ++ params ++ results.map fun (n, ty, _) => (n, ty)) }
    facts := { flows := results.map fun (n, _, i) => ⟨.slot (.localVar id n), .result id i⟩ } }

/-- Records calls of the initializers with these numbers. -/
def callInits : List FuncId → M Unit
  | [] => pure ()
  | id :: rest => do
    let _ ← addSite (.static id) none []
    callInits rest

/-- The initializers of the loaded packages that the package of an initializer imports. -/
def importedInits (p : Program) (f : Function) : List FuncId :=
  if f.kind == .initializer then
    ((p.package? (f.package.getD "")).map Package.imports).getD [] |>.filterMap fun path =>
      (p.package? path).bind Package.init
  else []

/-- The initializers that the user has written in the package of an initializer. -/
def ownInits (p : Program) (f : Function) : List FuncId :=
  if f.kind == .initializer then
    ((p.package? (f.package.getD "")).map Package.userInits).getD []
  else []

/-- Reads a body in the frame of its function. An initializer first calls those of the imported
packages and last those written by the user. -/
def readBody (f : Function) (body : List Stmt) : M Unit := do
  checkTypes (f.signature.params.map Outline.Param.ty ++ f.resultTypes)
  let program := (← get).program
  callInits (importedInits program f)
  readStmts body
  callInits (ownInits program f)

namespace State

/-- The state before the first body is read. -/
abbrev start (p : Program) : State where
  program := { p with facts := List.replicate p.functions.length {} }
  scopes := List.replicate p.functions.length {}
  frame := default

/-- The state when the body of a function is about to be read. -/
abbrev enter (s : State) (id : FuncId) (f : Function) : State := { s with frame := frameOf id f }

/-- The state when a body has been read: its scope and its facts are kept. -/
def close (s : State) : State :=
  { s with
    scopes := s.scopes.set s.frame.id s.frame.scope
    program := { s.program with facts := s.program.facts.set s.frame.id s.frame.facts } }

end State

/-- Reads the body of a function, if it has one. -/
def readFunction (s : State) (id : FuncId) : State :=
  match s.program.functions[id]? with
  | none => s
  | some f =>
    match f.body with
    | none => s
    | some body => ((readBody f body).run (s.enter id f)).2.close

/-- The order in which bodies are read: initializers first. -/
def readingOrder (p : Program) : List FuncId :=
  let isInitializer (id : FuncId) : Bool :=
    match p.functions[id]? with
    | some f => f.kind == .initializer
    | none => false
  let ids := List.range p.functions.length
  ids.filter isInitializer ++ ids.filter fun id => !isInitializer id

/-- Reads all bodies of a program: the program with its facts, and what is wrong with it. -/
def run (p : Program) : Program × List Diagnostic :=
  let s := (readingOrder p).foldl readFunction (.start p)
  (s.program, s.diagnostics)

end CallAtlas.Resolve

namespace CallAtlas

/-- The program of an assembly with its facts, or everything that is wrong with it. -/
def Assembly.finish (a : Assembly) : Except Error Program :=
  let (program, diagnostics) := Resolve.run a.program
  let all := a.diagnostics ++ diagnostics
  if all.isEmpty then .ok program else .error (.packageLoad all)

end CallAtlas
