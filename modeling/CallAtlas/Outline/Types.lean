import CallAtlas.ImportPath
import CallAtlas.Outline.Basic
import CallAtlas.Table

/-!
# From written types to reduced types

A name in a type is a type parameter, a predeclared type, or a type of the file's own package; a
qualified name belongs to the package that the file imports under the qualifier.
-/

set_option autoImplicit false

namespace CallAtlas.Outline

open Source (TypeExpr Entry)

/-- What the names in a file stand for: the path of its package, the names of all loaded packages by
their path, the paths of the imports read so far by their name, and the type parameters of the
declaration at hand. -/
structure Context where
  package : String
  packageNames : Table String String
  aliases : Table String String := ∅
  typeParams : List String := []

namespace Context

variable (c : Context)

/-- The type that a plain name stands for. -/
def nameTy (name : String) : Ty :=
  if c.typeParams.contains name then .param name
  else if name == "error" then .error
  else if name == "any" then .interface
  else if Ty.basicNames.contains name then .basic name
  else .named c.package name

/-- The type that a qualified name stands for. A qualifier that is no import stands for itself. -/
def qualifiedTy (pkg name : String) : Ty := .named ((c.aliases.get? pkg).getD pkg) name

end Context

/-- The number of parameters that the entries of a list declare. -/
def entryCount (entries : List Entry) : Nat :=
  (entries.flatMap fun
    | .mk names _ _ => if names.isEmpty then [()] else names.map fun _ => ()).length

/-- The reduced form of a written type. -/
def typeOf (c : Context) : TypeExpr → Ty
  | .name n => c.nameTy n
  | .qualified p n => c.qualifiedTy p n
  | .pointer t => .pointer (typeOf c t)
  | .slice t => .slice (typeOf c t)
  | .array _ t => .slice (typeOf c t)
  | .map _ v => .map (typeOf c v)
  | .chan t => .chan (typeOf c t)
  | .func params results => .func (entryCount params) (entryCount results)
  | .interface _ => .interface
  | .struct _ => .unknown
  | .generic base _ => typeOf c base
  | .paren t => typeOf c t
  | .union _ _ => .unknown
  | .negated _ => .unknown

/-- The parameters that an entry declares. -/
def paramsOfEntry (c : Context) : Entry → List Param
  | .mk names ty true => [⟨names.head?, .slice (typeOf c ty)⟩]
  | .mk [] ty false => [⟨none, typeOf c ty⟩]
  | .mk names ty false => names.map fun n => ⟨some n, typeOf c ty⟩

/-- The parameters of a list. -/
def paramsOf (c : Context) (entries : List Entry) : List Param := entries.flatMap (paramsOfEntry c)

/-- The signature of a function. -/
def signatureOf (c : Context) (params results : List Entry) : Signature where
  params := paramsOf c params
  results := paramsOf c results
  variadic := params.any fun | .mk _ _ variadic => variadic

/-- The fields that an entry of a struct declares. -/
def fieldsOfEntry (c : Context) : Entry → List Field
  | .mk [] ty _ => [⟨none, typeOf c ty⟩]
  | .mk names ty _ => names.map fun n => ⟨some n, typeOf c ty⟩

/-- The method that a member of an interface asks for. -/
def methodOfEntry (c : Context) : Entry → Option InterfaceMethod
  | .mk [name] (.func params results) _ =>
    some ⟨name, entryCount params, (paramsOf c results).map Param.ty⟩
  | _ => none

/-- The type that a member of an interface embeds. Only a name is embedded; other types constrain
type arguments and have no methods. -/
def embeddedOfEntry (c : Context) : Entry → Option Ty
  | .mk [] (.name n) _ => some (c.nameTy n)
  | .mk [] (.qualified p n) _ => some (c.qualifiedTy p n)
  | _ => none

/-- The kind of a declared type. -/
def kindOf (c : Context) (isAlias : Bool) : TypeExpr → TypeKind
  | .struct fields =>
    if isAlias then .defined .unknown else .struct (fields.flatMap (fieldsOfEntry c))
  | .interface members =>
    if isAlias then .defined .interface
    else .interface (members.filterMap (methodOfEntry c)) (members.filterMap (embeddedOfEntry c))
  | ty => .defined (typeOf c ty)

/-- The names that the entries of a list declare. -/
def namesOf (entries : List Entry) : List String := entries.flatMap fun | .mk names _ _ => names

/-- The type parameter that a type argument of a receiver introduces: the name it is or starts
with. -/
def receiverParam : TypeExpr → List String
  | .name n => [n]
  | .pointer (.name n) | .slice (.name n) | .chan (.name n) | .paren (.name n) => [n]
  | .negated (.name n) | .map (.name n) _ | .generic (.name n) _ | .union (.name n) _ => [n]
  | .array (.ident n) _ => [n]
  | _ => []

mutual

/-- The type parameters in a written receiver type, the last list of type arguments first. -/
def receiverParams : TypeExpr → List String
  | .generic base args => args.flatMap receiverParam ++ receiverParams base
  | .pointer t | .slice t | .array _ t | .chan t | .paren t | .negated t => receiverParams t
  | .map k v => receiverParams v ++ receiverParams k
  | .union a b => receiverParams b ++ receiverParams a
  | .func params results => receiverParamsAll results ++ receiverParamsAll params
  | .interface entries | .struct entries => receiverParamsAll entries
  | .name _ | .qualified _ _ => []

/-- The type parameters in the entries of a list, from its end. -/
def receiverParamsAll : List Entry → List String
  | [] => []
  | .mk _ ty _ :: rest => receiverParamsAll rest ++ receiverParams ty

end

/-- The receiver of a method; a list without a regular parameter has none. -/
def receiverOf (r : Source.ReceiverDecl) : Option Receiver := do
  let entry ← r.entries.find? fun | .mk _ _ variadic => !variadic
  match entry with
  | .mk names ty _ =>
    let pointer :=
      match ty with
      | .pointer _ => true
      | _ => false
    pure { var := names.head?, typeName := r.typeText, pointer }

end CallAtlas.Outline
