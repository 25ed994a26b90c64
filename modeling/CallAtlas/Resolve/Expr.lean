import CallAtlas.Resolve.Actions

/-!
# Reading expressions

An expression is read from the left, and its type and origin are found on the way. A call is
classified by the expression that is called before its arguments are read, and it is recorded behind
the calls in its arguments.
-/

set_option autoImplicit false

namespace CallAtlas.Resolve

open Outline (Expr Elem)

/-- What a call calls. -/
inductive Callee where
  | function (id : FuncId) (typeArgs : List Ty)
  | method (id : FuncId) (recv : Origin)
  | invoke (iface : TypeId) (method : String) (recv : Origin)
  | dynamic (callee : Origin) (results : Nat)
  | unresolved
deriving Inhabited

/-- A plain name. -/
def readIdent (name : String) : M Value := do
  let s ← get
  match s.localVar? name with
  | some (owner, ty) => pure { ty, origin := .slot (.localVar owner name) }
  | none =>
    if ["_", "nil", "true", "false", "iota"].contains name then pure {}
    else
      match s.ownFunc? name with
      | some id => funcValue id
      | none =>
        if s.isOwnMember name then
          if (s.program.decls.lookup s.frame.pkg name).isSome then pure {}
          else pure (s.globalValue s.frame.pkg name)
        else
          if !s.isImplicit name then report (.undefined name)
          pure .unseen

/-- A name of an imported package. -/
def readQualified (qualifier path name : String) : M Value := do
  let s ← get
  match s.program.package? path with
  | none => pure .unseen
  | some package =>
    match package.funcs.get? name with
    | some id => funcValue id
    | none =>
      if package.members.contains name then
        if (s.program.decls.lookup path name).isSome then pure {}
        else pure (s.globalValue path name)
      else
        report (.undefinedIn qualifier name)
        pure .unseen

/-- The method of a type that is selected on the type itself. -/
def methodOfType? (s : State) (ty : Ty) (name : String) : Option FuncId := do
  s.program.decls.methodOf (← s.program.decls.idOf ty) name

/-- What is selected on the type itself, as a value. -/
def readMethodOfType (ty : Ty) (name : String) : M Value := do
  match methodOfType? (← get) ty name with
  | some method => funcValue (← thunk method)
  | none => pure .unseen

/-- What is selected on an operand that has been read, as a value. -/
def readMember (operand : Expr) (value : Value) (name : String) : M Value := do
  match (← get).program.decls.member value.ty name with
  | some (.field owner ty) => pure { ty, origin := .slot (.field owner name) }
  | some (.method id) => funcValue (← boundMethod id)
  | some (.interfaceMethod _) => pure .unseen
  | none =>
    checkMember operand value.ty name
    pure .unseen

/-- The value of a sign in front of an operand that has been read. -/
def signedValue (op : Source.UnaryOp) (value : Value) : Value :=
  match op with
  | .address => { ty := .pointer value.ty, origin := value.origin }
  | .deref =>
    match value.ty with
    | .pointer inner => { ty := inner, origin := value.origin }
    | _ => { origin := value.origin }
  | .receive => { ty := value.ty.element, origin := .unseen }
  | .arithmetic => { ty := value.ty }

/-- The field that the element with a number sets if it has no key. -/
def positionalField? (u : Universe) (owner : TypeId) (i : Nat) : Option String :=
  match u.kind? owner with
  | some (.struct fields) => (fields[i]?).bind Field.name
  | _ => none

/-- The value of an element flows into the field that it sets. -/
def flowIntoField (ty : Ty) (owner : Option TypeId) (i : Nat) (key : Option String)
    (value : Value) : M Unit := do
  let u := (← get).program.decls
  match owner with
  | none => pure ()
  | some id =>
    match key <|> positionalField? u id i with
    | none => pure ()
    | some field =>
      match u.member ty field with
      | some (.field owner _) => addFlow value.origin (.field owner field)
      | _ => pure ()

/-- The origin of a new object of a declared type. -/
def allocatedOrigin : Option TypeId → Origin
  | some id => .atom (.type id)
  | none => {}

/-- The value of a call of a predeclared function, whose arguments have been read. -/
def builtinValue (s : State) (name : String) (args : List Expr) (values : List Value) : Value :=
  if name == "append" || name == "min" || name == "max" then values.head?.getD {}
  else if name == "make" then { ty := (args.head?.bind s.typeOperand?).getD .unknown }
  else if name == "len" || name == "cap" || name == "copy" then { ty := .basic "int" }
  else if name == "recover" then .unseen
  else {}

/-- The name is that of a predeclared function and is not declared otherwise. -/
def isBuiltinCall (s : State) : Expr → Option String
  | .ident name =>
    if Ty.builtinFunctions.contains name && !s.isLocal name && !s.isOwnMember name then some name
    else none
  | _ => none

/-- A value that has been read is called. -/
def dynamicCallee (u : Universe) (value : Value) : Callee :=
  let callable :=
    match value.ty with
    | .func _ _ => true
    | .unknown => !value.origin.isEmpty
    | .named pkg name =>
      match (u.lookup pkg name).bind u.kind? with
      | some (.defined (.func _ _)) => true
      | _ => false
    | _ => false
  if callable then .dynamic value.origin (resultCount value.ty) else .unresolved

/-- A name of an imported package is called. -/
def qualifiedCallee (qualifier path name : String) : M Callee := do
  let s ← get
  match s.program.package? path with
  | none => do pure (.function (← external path name) [])
  | some package =>
    match package.funcs.get? name with
    | some id => pure (.function id [])
    | none =>
      if package.members.contains name then
        let value := s.globalValue path name
        pure (.dynamic value.origin (resultCount value.ty))
      else
        report (.undefinedIn qualifier name)
        pure .unresolved

/-- A method selected on a type itself is called. -/
def methodOfTypeCallee (ty : Ty) (name : String) : M Callee := do
  match methodOfType? (← get) ty name with
  | some method => do pure (.function (← thunk method) [])
  | none => pure .unresolved

/-- What is selected on an operand that has been read is called. -/
def memberCallee (operand : Expr) (value : Value) (name : String) : M Callee := do
  match (← get).program.decls.member value.ty name with
  | some (.method id) => pure (.method id value.origin)
  | some (.interfaceMethod iface) => pure (.invoke iface name value.origin)
  | some (.field owner ty) => pure (.dynamic (.slot (.field owner name)) (resultCount ty))
  | none =>
    checkMember operand value.ty name
    pure .unresolved

/-- The generic function that an index gives type arguments to. -/
def genericBase? (s : State) (base : Expr) : Option FuncId := do
  let id ←
    match base with
    | .ident name => if s.isLocal name then none else s.ownFunc? name
    | .selector (.ident qualifier) name => do s.program.packageFunc? (← s.importOf? qualifier) name
    | _ => none
  let f ← s.program.functions[id]?
  if f.isGeneric then some id else none

/-- The results of a recorded call. -/
def siteResults (id : FuncId) (site : Nat) (types : List Ty) : Value :=
  .ofResults (types.zipIdx.map fun (ty, i) => (ty, .slot (.callResult id site i)))

/-- Records a call whose arguments have been read. -/
def finishCall (callee : Callee) (typeArgs : List Ty) (args : List Value) : M Value := do
  let s ← get
  let argTypes := args.map Value.ty
  let origins := args.map Value.origin
  let functionOf (id : FuncId) : Function := (s.program.functions[id]?).getD default
  match callee with
  | .unresolved => pure .unseen
  | .function id ownTypeArgs =>
    let f := functionOf id
    let target ← instantiate id (if ownTypeArgs.isEmpty then typeArgs else ownTypeArgs) argTypes
    let site ← addSite (.static target) none origins
    if f.kind == .external then pure .unseen else pure (siteResults s.frame.id site f.resultTypes)
  | .method id recv =>
    let target ← if s.isWithinReceiver id then pure id else instantiate id [] argTypes
    let site ← addSite (.static target) (some recv) origins
    pure (siteResults s.frame.id site (functionOf id).resultTypes)
  | .invoke iface method recv =>
    let site ← addSite (.invoke iface method) (some recv) origins
    pure (siteResults s.frame.id site (s.program.decls.interfaceResults iface method))
  | .dynamic origin results =>
    let site ← addSite (.dynamic origin) none origins
    pure (siteResults s.frame.id site (List.replicate results .unknown))

mutual

/-- Reads an expression. -/
def readExpr : Expr → M Value
  | .ident name => readIdent name
  | .selector operand name => do
    let s ← get
    match s.qualifier? operand with
    | some (qualifier, path) => readQualified qualifier path name
    | none =>
      match s.typeOperand? operand with
      | some ty => readMethodOfType ty name
      | none => do
        let value ← readExpr operand
        readMember operand value name
  | .call func args typeArgs line => do
    setLine line
    let s ← get
    match s.typeOperand? func with
    | some ty =>
      let values ← readExprs args
      pure { ty, origin := (values.getLast?.map Value.origin).getD {} }
    | none =>
      match isBuiltinCall s func with
      | some name =>
        let values ← readExprs args
        pure (builtinValue (← get) name args values)
      | none =>
        let callee ← readCalleeOr s (readExpr func) func
        let values ← readExprs args
        setLine line
        finishCall callee typeArgs values
  | .composite ty pointer elems => do
    checkType ty
    let id ← allocate ty
    readElems ty id 0 elems
    pure { ty := if pointer then .pointer ty else ty, origin := allocatedOrigin id }
  | .new ty => do
    checkType ty
    pure { ty := .pointer ty, origin := allocatedOrigin (← allocate ty) }
  | .funcLit index => do
    match (← get).closure? index with
    | some id => funcValue id
    | none => pure .unseen
  | .assert operand ty => do
    checkType ty
    let value ← readExpr operand
    pure { ty, origin := value.origin }
  | .convert ty operand => do
    checkType ty
    let value ← readExpr operand
    pure { ty, origin := value.origin }
  | .index base index _ => do
    let value ← readExpr base
    let _ ← readExpr index
    pure { ty := value.ty.element, origin := .unseen }
  | .unary op operand => do pure (signedValue op (← readExpr operand))
  | .lit ty => pure { ty }
  | .type ty => do
    checkType ty
    pure {}
  | .other items => do
    let _ ← readExprs items
    pure {}

/-- Finds out what is called by an expression that stands for no type, in the state of the call.
What is nothing but a value is read as a whole. -/
def readCalleeOr (s : State) (whole : M Value) : Expr → M Callee
  | .ident name =>
    match if s.isLocal name then none else s.ownFunc? name with
    | some id => pure (.function id [])
    | none => do pure (dynamicCallee s.program.decls (← readIdent name))
  | .selector operand name =>
    match s.qualifier? operand with
    | some (qualifier, path) => qualifiedCallee qualifier path name
    | none =>
      match s.typeOperand? operand with
      | some ty => methodOfTypeCallee ty name
      | none => do
        let value ← readExpr operand
        memberCallee operand value name
  | .funcLit index =>
    match s.closure? index with
    | some id => pure (.function id [])
    | none => pure .unresolved
  | .index base index asType =>
    match genericBase? s base with
    | some id => pure (.function id [asType])
    | none => do
      let value ← readExpr base
      let _ ← readExpr index
      pure (dynamicCallee s.program.decls { ty := value.ty.element, origin := .unseen })
  | _ => do pure (dynamicCallee s.program.decls (← whole))

/-- Reads expressions from the left. -/
def readExprs : List Expr → M (List Value)
  | [] => pure []
  | e :: rest => do
    let value ← readExpr e
    pure (value :: (← readExprs rest))

/-- Reads the elements of a composite literal from the one with the number `i` on. -/
def readElems (ty : Ty) (owner : Option TypeId) (i : Nat) : List Elem → M Unit
  | [] => pure ()
  | .mk key value :: rest => do
    flowIntoField ty owner i key (← readExpr value)
    readElems ty owner (i + 1) rest

end

/-- Finds out what is called by an expression that stands for no type, in the state of the call. -/
def readCallee (s : State) (func : Expr) : M Callee := readCalleeOr s (readExpr func) func

end CallAtlas.Resolve
