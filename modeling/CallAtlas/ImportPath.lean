import CallAtlas.Text.Classes

/-!
# Import paths

A package is imported by a path of segments. This module tells the paths of the standard library
from all others, and gives the name by which a package is known that is imported without one.
-/

set_option autoImplicit false

namespace CallAtlas.ImportPath

/-- The first segments of the standard library. -/
def standardRoots : List String :=
  ["fmt", "os", "io", "net", "http", "time", "strings", "bytes", "context", "errors", "log", "math",
   "sort", "sync", "unsafe", "runtime", "reflect", "encoding", "crypto", "database", "go", "html",
   "image", "index", "mime", "path", "regexp", "strconv", "testing", "text", "unicode", "archive",
   "bufio", "builtin", "compress", "container", "debug", "expvar", "flag", "hash", "heap", "plugin",
   "syscall"]

/-- A path of the standard library: it has no dot, and it has one segment or starts with a known
one. -/
def isStandard (path : String) : Bool :=
  if Text.contains "." path then false
  else if path.isEmpty || path == "command-line-arguments" then false
  else
    standardRoots.any (fun root => path == root || Text.startsWith (root ++ "/") path) ||
      !Text.contains "/" path

/-- A segment that only gives a major version, such as `v2`. -/
def isMajorVersion : List Char → Bool
  | 'v' :: digits => !digits.isEmpty && digits.all Text.isAsciiDigit
  | _ => false

/-- Splits at the last place where `.v` stands. -/
def splitVersion : List Char → Option (List Char × List Char)
  | [] => none
  | c :: cs =>
    match splitVersion cs with
    | some (head, version) => some (c :: head, version)
    | none => (Text.dropPrefix? ['.', 'v'] (c :: cs)).map fun version => ([], version)

/-- Drops every leading `go-`. -/
def dropGo : List Char → List Char
  | 'g' :: 'o' :: '-' :: cs => dropGo cs
  | cs => cs

/-- The name of a package that is imported without one: the last segment before a version, without
what cannot stand in a name. -/
def defaultName (path : String) : String :=
  let segments := (Text.splitBy (· == '/') path.toList).reverse
  let base :=
    match segments with
    | last :: before :: _ => if isMajorVersion last then before else last
    | [last] => last
    | [] => []
  let base :=
    match splitVersion base with
    | some (head, version) =>
      if !version.isEmpty && version.all Text.isAsciiDigit then head else base
    | none => base
  String.ofList ((dropGo base).map fun c => if c == '-' || c == '.' then '_' else c)

end CallAtlas.ImportPath
