import CallAtlas.Text.Basic

/-!
# Files

Files are seen as a finite tree. A file holds a text, or bytes that are no text. `Disk` adds the
place of the tree and the directory that relative paths start from; paths inside it are lists of
names from the top of the tree.
-/

set_option autoImplicit false

namespace CallAtlas

/-- A file with its text, if its bytes are one, or a directory with its entries. -/
inductive FileTree where
  | file (text : Option String)
  | dir (entries : List (String × FileTree))
deriving Inhabited

/-- Why a file cannot be read. -/
inductive IoFailure where
  | notFound
  | notDirectory
  | isDirectory
  | notText
deriving DecidableEq, Repr, Inhabited

/-- The text of a failure. -/
def IoFailure.message : IoFailure → String
  | .notFound => "No such file or directory (os error 2)"
  | .notDirectory => "Not a directory (os error 20)"
  | .isDirectory => "Is a directory (os error 21)"
  | .notText => "stream did not contain valid UTF-8"

/-- A path from the top of a tree. -/
abbrev Path := List String

namespace FileTree

/-- What stands at a path. -/
def find : FileTree → Path → Except IoFailure FileTree
  | t, [] => .ok t
  | .file _, _ :: _ => .error .notDirectory
  | .dir entries, name :: rest =>
    match entries.lookup name with
    | some t => t.find rest
    | none => .error .notFound

/-- It is a file. -/
def isFile : FileTree → Bool
  | .file _ => true
  | .dir _ => false

/-- The text of the file at a path. -/
def read (t : FileTree) (path : Path) : Except IoFailure String := do
  match ← t.find path with
  | .dir _ => .error .isDirectory
  | .file none => .error .notText
  | .file (some text) => .ok text

/-- A file stands at a path. -/
def hasFile (t : FileTree) (path : Path) : Bool :=
  match t.find path with
  | .ok node => node.isFile
  | .error _ => false

/-- Replaces the entry of a name, or adds it behind all others. -/
def putEntry (name : String) (t : FileTree) : List (String × FileTree) → List (String × FileTree)
  | [] => [(name, t)]
  | (n, u) :: rest => if n == name then (n, t) :: rest else (n, u) :: putEntry name t rest

/-- Puts a file or directory at a path, and makes the directories above it that are missing. What
stands in the way of a directory is replaced. -/
def insert (t : FileTree) (new : FileTree) : Path → FileTree
  | [] => new
  | name :: rest =>
    let entries :=
      match t with
      | .dir entries => entries
      | .file _ => []
    let below := (entries.lookup name).getD (.dir [])
    .dir (putEntry name (insert below new rest) entries)

/-- Writes a file into a directory that is there. -/
def write (t : FileTree) (path : Path) (text : String) : Except IoFailure FileTree := do
  match ← t.find path.dropLast with
  | .file _ => .error .notDirectory
  | .dir entries =>
    match path.getLast? with
    | none => .error .isDirectory
    | some name =>
      match entries.lookup name with
      | some (.dir _) => .error .isDirectory
      | _ => .ok (t.insert (.file (some text)) path)

end FileTree

/-- A tree of files, the text of the path of its top, and the directory that relative paths start
from. -/
structure Disk where
  top : String
  tree : FileTree
  current : Path := []
deriving Inhabited

namespace Disk

/-- The text of a path. -/
def display (d : Disk) (path : Path) : String :=
  match path with
  | [] => if d.top.isEmpty then "/" else d.top
  | _ => d.top ++ "/" ++ Text.join "/" path

/-- The place after one more name of a path: `.` and the empty name stay, `..` goes up. -/
def step (path : Path) (name : String) : Path :=
  if name.isEmpty || name == "." then path
  else if name == ".." then path.dropLast
  else path ++ [name]

/-- Follows the names of a path from a directory, whatever stands there. -/
def follow (start : Path) (names : List String) : Path := names.foldl step start

/-- The directory that the text of a path starts from, if it lies in the tree, and its names. -/
def names (d : Disk) (text : String) : Except IoFailure (Path × List String) :=
  if text.isEmpty then .error .notFound
  else if text == d.top then .ok ([], [])
  else
    match Text.stripPrefix? (d.top ++ "/") text with
    | some rest => .ok ([], Text.split '/' rest)
    | none =>
      if Text.startsWith "/" text then .error .notFound else .ok (d.current, Text.split '/' text)

/-- Follows the names of a path from a place. What a name is looked up in must be a directory. -/
def walk (tree : FileTree) (path : Path) : List String → Except IoFailure Path
  | [] => .ok path
  | name :: rest => do
    match ← tree.find path with
    | .file _ => .error .notDirectory
    | .dir _ => walk tree (step path name) rest

/-- The place that the text of a path means; only the last name may be missing. -/
def resolve (d : Disk) (text : String) : Except IoFailure Path := do
  let (start, names) ← d.names text
  walk d.tree start names

/-- The place of a file or directory that is there. -/
def locate (d : Disk) (text : String) : Except IoFailure Path := do
  let path ← d.resolve text
  let _ ← d.tree.find path
  pure path

/-- The text of the file that a path means. -/
def read (d : Disk) (text : String) : Except IoFailure String := do d.tree.read (← d.resolve text)

/-- Writes the file that a path means. -/
def write (d : Disk) (text content : String) : Except IoFailure Disk := do
  pure { d with tree := ← d.tree.write (← d.resolve text) content }

end Disk

end CallAtlas
