import CallAtlas.Outline.Basic
import CallAtlas.Table

/-!
# Declared types

The declared types of a program and what can be selected on them. A type is known by its position in
the list; the first declaration of a name in a package counts. Aliases, defined types and embedded
fields can form circles, so every search follows them to a fixed depth only.
-/

set_option autoImplicit false

namespace CallAtlas

/-- The number of a function of a program. -/
abbrev FuncId := Nat

/-- The number of a declared type of a program. -/
abbrev TypeId := Nat

/-- A method that is declared on a type. -/
structure Method where
  func : FuncId
  pointerReceiver : Bool
deriving DecidableEq, Repr, Inhabited

/-- A declared type with the methods declared on it. -/
structure NamedType where
  pkg : String
  name : String
  kind : TypeKind
  methods : Table String Method := ∅
deriving Inhabited

/-- The type as it is written outside its package. -/
def NamedType.ty (t : NamedType) : Ty := .named t.pkg t.name

/-- It is declared as an interface. -/
def NamedType.isInterface (t : NamedType) : Bool :=
  match t.kind with
  | .interface _ _ => true
  | _ => false

/-- The declared types and aliases of a program. -/
structure Universe where
  types : List NamedType := []
  aliases : Table (String × String) Ty := ∅
deriving Inhabited

/-- What a selection finds. -/
inductive Member where
  | field (owner : TypeId) (ty : Ty)
  | method (func : FuncId)
  | interfaceMethod (iface : TypeId)
deriving DecidableEq, Repr, Inhabited

namespace Universe

/-- How many aliases, defined types or embedded fields a search follows. -/
def maxDepth : Nat := 8

variable (u : Universe)

/-- The number of the type that a package declares under a name. -/
def declared? (pkg name : String) : Option TypeId :=
  u.types.findIdx? fun t => t.pkg == pkg && t.name == name

/-- The type that a name stands for, through at most `fuel` names. -/
def lookupFrom : (fuel : Nat) → (pkg name : String) → Option TypeId
  | 0, _, _ => none
  | fuel + 1, pkg, name =>
    match u.declared? pkg name with
    | some id => some id
    | none =>
      match u.aliases.get? (pkg, name) with
      | some (.named pkg name) => lookupFrom fuel pkg name
      | _ => none

/-- The type that a name of a package stands for, also through aliases. -/
def lookup (pkg name : String) : Option TypeId := u.lookupFrom maxDepth pkg name

/-- The package declares a type or an alias of this name. -/
def declares (pkg name : String) : Bool :=
  (u.declared? pkg name).isSome || u.aliases.contains (pkg, name)

/-- The declared type behind a type, also through one pointer. -/
def idOf (ty : Ty) : Option TypeId :=
  match ty.deref with
  | .named pkg name => u.lookup pkg name
  | _ => none

/-- The kind of a type. -/
def kind? (id : TypeId) : Option TypeKind := u.types[id]?.map NamedType.kind

/-- The type is an interface, through at most `fuel` definitions. -/
def isInterfaceFrom : (fuel : Nat) → TypeId → Bool
  | 0, _ => false
  | fuel + 1, id =>
    match u.kind? id with
    | some (.interface _ _) => true
    | some (.defined (.named pkg name)) =>
      match u.lookup pkg name with
      | some next => isInterfaceFrom fuel next
      | none => false
    | _ => false

/-- The type is an interface or defined by one. -/
def isInterface (id : TypeId) : Bool := u.isInterfaceFrom maxDepth id

/-- The types of the embedded fields of a struct. -/
def embeddedIds (fields : List Field) : List TypeId :=
  (fields.filter fun f => f.name.isNone).filterMap fun f => u.idOf f.ty

/-- The methods of a type with those promoted from embedded fields, the outer ones first. -/
def methodEntriesFrom : (fuel : Nat) → TypeId → List (String × FuncId)
  | 0, _ => []
  | fuel + 1, id =>
    match u.types[id]? with
    | none => []
    | some t =>
      let own := t.methods.entries.map fun (name, m) => (name, m.func)
      match t.kind with
      | .struct fields =>
        own ++ ((u.embeddedIds fields).filter fun e => !u.isInterface e).flatMap
          (methodEntriesFrom fuel)
      | _ => own

/-- The methods of a type with those promoted from embedded fields; of two with one name the first
counts. -/
def methodEntries (id : TypeId) : List (String × FuncId) := u.methodEntriesFrom (maxDepth + 1) id

/-- The method of a concrete type that a call through an interface reaches. -/
def methodOf (id : TypeId) (name : String) : Option FuncId := (u.methodEntries id).lookup name

/-- The names of the methods that an interface asks for, with those of embedded interfaces. -/
def interfaceMethodsFrom : (fuel : Nat) → TypeId → List String
  | 0, _ => []
  | fuel + 1, id =>
    match u.kind? id with
    | some (.interface methods embedded) =>
      methods.map InterfaceMethod.name ++
        (embedded.filterMap u.idOf).flatMap (interfaceMethodsFrom fuel)
    | some (.defined ty) =>
      match u.idOf ty with
      | some inner => interfaceMethodsFrom fuel inner
      | none => []
    | _ => []

/-- The names of the methods that an interface asks for. -/
def interfaceMethods (id : TypeId) : List String := u.interfaceMethodsFrom (maxDepth + 1) id

/-- The first method of a name that an interface asks for. -/
def findInterfaceMethodFrom (name : String) : (fuel : Nat) → TypeId → Option InterfaceMethod
  | 0, _ => none
  | fuel + 1, id =>
    match u.kind? id with
    | some (.interface methods embedded) =>
      match methods.find? fun m => m.name == name with
      | some m => some m
      | none => (embedded.filterMap u.idOf).findSome? (findInterfaceMethodFrom name fuel)
    | some (.defined ty) => (u.idOf ty).bind (findInterfaceMethodFrom name fuel)
    | _ => none

/-- The first method of a name that an interface asks for. -/
def findInterfaceMethod (id : TypeId) (name : String) : Option InterfaceMethod :=
  u.findInterfaceMethodFrom name (maxDepth + 1) id

/-- The results of a method of an interface. -/
def interfaceResults (id : TypeId) (name : String) : List Ty :=
  ((u.findInterfaceMethod id name).map InterfaceMethod.results).getD []

/-- A concrete type has all the methods of an interface that asks for at least one. -/
def implements (concrete iface : TypeId) : Bool :=
  if u.isInterface concrete then false
  else
    let required := u.interfaceMethods iface
    !required.isEmpty && required.all fun name => (u.methodOf concrete name).isSome

/-- The methods of a name on all types that implement an interface, in the order of the types, each
once. -/
def implementations (iface : TypeId) (name : String) : List FuncId :=
  ((List.range u.types.length).filterMap fun t =>
    if u.implements t iface then u.methodOf t name else none).eraseDups

/-- The interface method of this name that the type asks for. -/
def interfaceMember (id : TypeId) (name : String) : Option Member :=
  if (u.interfaceMethods id).contains name then some (.interfaceMethod id) else none

/-- What a selection finds on a type, through at most `fuel` definitions and embedded fields. -/
def memberFrom (name : String) : (fuel : Nat) → TypeId → Option Member
  | 0, _ => none
  | fuel + 1, id =>
    match u.types[id]? with
    | none => none
    | some t =>
      match t.methods.get? name with
      | some m => some (.method m.func)
      | none =>
        match t.kind with
        | .interface _ _ => u.interfaceMember id name
        | .struct fields =>
          match fields.find? fun f => f.name == some name with
          | some f => some (.field id f.ty)
          | none => (u.embeddedIds fields).findSome? (memberFrom name fuel)
        | .defined ty =>
          match u.idOf ty with
          | none => none
          | some under =>
            if u.isInterface under then u.interfaceMember id name
            else
              match memberFrom name fuel under with
              | some (.field owner ty) => some (.field owner ty)
              | _ => none

/-- What a selection finds on a declared type. -/
def memberOf (id : TypeId) (name : String) : Option Member := u.memberFrom name (maxDepth + 1) id

/-- What a selection finds on a type. -/
def member (ty : Ty) (name : String) : Option Member := do u.memberOf (← u.idOf ty) name

/-- Everything that can be selected on a type is known, through at most `fuel` definitions and
embedded types. -/
def isClosedFrom : (fuel : Nat) → TypeId → Bool
  | 0, _ => false
  | fuel + 1, id =>
    let closed (ty : Ty) : Bool :=
      match u.idOf ty with
      | some inner => isClosedFrom fuel inner
      | none => false
    match u.kind? id with
    | some (.struct fields) => (fields.filter fun f => f.name.isNone).all fun f => closed f.ty
    | some (.interface _ embedded) => embedded.all closed
    | some (.defined (.named pkg name)) => closed (.named pkg name)
    | some (.defined (.pointer _)) | some (.defined (.param _)) | some (.defined .unknown) => false
    | some (.defined _) => true
    | none => false

/-- Everything that can be selected on a type is known, so a selection that finds nothing is an
error. -/
def isClosed (id : TypeId) : Bool := u.isClosedFrom (maxDepth + 1) id

/-- The number and the universe after a type is declared; a second declaration of a name changes
nothing. -/
def declare (t : NamedType) : Universe :=
  if (u.declared? t.pkg t.name).isSome then u else { u with types := u.types ++ [t] }

/-- Declares a method on a type. -/
def addMethod (id : TypeId) (name : String) (m : Method) : Universe :=
  { u with types := u.types.modify id fun t => { t with methods := t.methods.insert name m } }

/-- The universe in which only the predeclared error interface exists. -/
def initial : Universe where
  types := [{ pkg := "", name := "error", kind := .interface [⟨"Error", 0, [.basic "string"]⟩] [] }]

end Universe

end CallAtlas
