/-!
# Types

A Go type reduced to what decides calls: which declared type it is, what it points to or holds, and
how many parameters and results a function has.
-/

set_option autoImplicit false

namespace CallAtlas

/-- A type. A declared type is named by the import path of its package, which is empty for the types
that belong to none; a map is known by the type of its values. -/
inductive Ty where
  | named (pkg name : String)
  | pointer (target : Ty)
  | slice (elem : Ty)
  | map (value : Ty)
  | chan (elem : Ty)
  | func (params results : Nat)
  | interface
  | param (name : String)
  | basic (name : String)
  | unknown
deriving DecidableEq, Repr, Inhabited

namespace Ty

/-- The predeclared error interface. -/
def error : Ty := .named "" "error"

/-- What a pointer points to; every other type stays. -/
def deref : Ty → Ty
  | .pointer t => t
  | t => t

/-- What an index or a range gives, also through one pointer. -/
def element (t : Ty) : Ty :=
  match t.deref with
  | .slice e | .map e | .chan e => e
  | .basic "string" => .basic "byte"
  | _ => .unknown

/-- Nothing is known of the type. -/
def isUnknown : Ty → Bool
  | .unknown => true
  | _ => false

/-- The text of a type in a message. -/
def display : Ty → String
  | .named pkg name => if pkg.isEmpty then name else pkg ++ "." ++ name
  | .pointer t => "*" ++ t.display
  | .slice t => "[]" ++ t.display
  | .map t => "map[_]" ++ t.display
  | .chan t => "chan " ++ t.display
  | .func _ _ => "func"
  | .interface => "any"
  | .param name => name
  | .basic name => name
  | .unknown => "?"

/-- The names of predeclared types that are no interfaces. -/
def basicNames : List String :=
  ["bool", "byte", "complex64", "complex128", "float32", "float64", "int", "int8", "int16", "int32",
   "int64", "rune", "string", "uint", "uint8", "uint16", "uint32", "uint64",
     "uintptr", "comparable"]

/-- The names of predeclared functions. -/
def builtinFunctions : List String :=
  ["append", "cap", "clear", "close", "complex", "copy", "delete", "imag", "len",
    "make", "max", "min",
   "new", "panic", "print", "println", "real", "recover"]

end Ty

/-- A field of a struct; an embedded one has no name. -/
structure Field where
  name : Option String
  ty : Ty
deriving DecidableEq, Repr, Inhabited

/-- A method that an interface asks for: its name, the number of its parameters, its results. -/
structure InterfaceMethod where
  name : String
  params : Nat
  results : List Ty
deriving DecidableEq, Repr, Inhabited

/-- What a declared type is. -/
inductive TypeKind where
  | struct (fields : List Field)
  | interface (methods : List InterfaceMethod) (embedded : List Ty)
  | defined (ty : Ty)
deriving DecidableEq, Repr, Inhabited

end CallAtlas
