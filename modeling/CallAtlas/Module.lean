import CallAtlas.FileTree
import CallAtlas.Text.Blank

/-!
# Modules

A directory belongs to the module whose manifest, a file `go.mod`, is the nearest one in it or above
it. The manifest declares the path of the module on the first line that starts with the word
`module` and has something behind it.
-/

set_option autoImplicit false

namespace CallAtlas

/-- A module: its path as declared, and the directory of its manifest. -/
structure Module where
  path : String
  root : Path
deriving DecidableEq, Repr, Inhabited

/-- Why a directory has no module. -/
inductive ModuleFailure where
  | unreachable (failure : IoFailure)
  | undeclared
  | noManifest
deriving DecidableEq, Repr, Inhabited

/-- The text of a failure. -/
def ModuleFailure.message : ModuleFailure → String
  | .unreachable failure => failure.message
  | .undeclared => "go.mod has no module declaration"
  | .noManifest => "no go.mod in this directory or any parent"

namespace Module

/-- The path that a line of a manifest declares, perhaps in quotes. -/
def pathOfLine? (line : List Char) : Option (List Char) := do
  let rest ← Text.dropPrefix? "module".toList (line.dropWhile Text.isBlank)
  match rest with
  | [] => none
  | c :: _ =>
    if Text.isBlank c then
      let value := rest.dropWhile Text.isBlank
      let value := (Text.dropPrefix? ['"'] value).getD value
      let path := value.takeWhile fun c => !(c == '"' || Text.isBlank c)
      if path.isEmpty then none else some path
    else none

/-- The path that a manifest declares. -/
def declaredPath? (manifest : String) : Option String :=
  ((Text.linesOf manifest.toList).findSome? pathOfLine?).map String.ofList

/-- The name of a manifest. -/
def manifestName : String := "go.mod"

/-- The directories from `path` up to the top, the nearest first. -/
def ancestors (path : Path) : List Path :=
  (List.range (path.length + 1)).reverse.map path.take

/-- The nearest directory with a manifest, from `path` upwards. -/
def manifestDir? (tree : FileTree) (path : Path) : Option Path :=
  (ancestors path).find? fun dir => tree.hasFile (dir ++ [manifestName])

end Module

end CallAtlas
