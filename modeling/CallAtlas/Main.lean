import CallAtlas.CommandLine.Run

/-!
# The program

Reads the files that a run can look at, runs, writes the files that it changed, and prints. What is
read: everything named by an argument or by the settings file, the current directory, and the module
files of all directories above. Of other files only the names are taken.
-/

set_option autoImplicit false

namespace CallAtlas.Shell

/-- The absolute text of a path. -/
def absolute (path : Path) : String := "/" ++ Text.join "/" path

/-- The file holds text that an analysis reads. -/
def isSource (name : String) : Bool := Text.endsWith ".go" name || name == Module.manifestName

/-- The text of a file, if it is text. -/
def fileText (path : String) : IO FileTree := do
  return .file (String.fromUTF8? (← IO.FS.readBinFile path))

/-- The files below a directory, or a file itself. -/
partial def snapshot (path : String) (named : Bool) : IO FileTree := do
  let place ← IO.FS.realPath path
  if ← place.isDir then
    let mut entries := []
    for entry in ← place.readDir do
      entries := (entry.fileName, ← snapshot (path ++ "/" ++ entry.fileName) false) :: entries
    return .dir entries
  else if named || isSource ((Text.split '/' path).getLast?.getD "") then fileText path
  else return .file none

/-- The tree with what stands at a path and the module files above it, as far as they are there. It
is taken only if it is a directory or only if it is a file. -/
def addPath (directory : Bool) (disk : Disk) (text : String) : IO Disk := do
  match disk.names text with
  | .error _ => return disk
  | .ok (start, names) =>
    let path := Disk.follow start names
    let mut tree := disk.tree
    for depth in List.range (path.length + 1) do
      let above := path.take depth
      try
        if ← (← IO.FS.realPath (absolute above)).isDir then
          unless (tree.find above).isOk do tree := tree.insert (.dir []) above
        let file := above ++ [Module.manifestName]
        tree := tree.insert (← fileText (absolute file)) file
      catch _ => pure ()
    try
      if (← (← IO.FS.realPath (absolute path)).isDir) == directory then
        tree := tree.insert (← snapshot (absolute path) true) path
    catch _ => pure ()
    return { disk with tree }

/-- What the settings file among the options names. -/
def namedBySettings (disk : Disk) (args : List String) : List String :=
  match CommandLine.request args with
  | .ok (.run { config := some path, .. }) =>
    match disk.fileSettings path with
    | .ok s => [s.root, s.database, s.output].filterMap id
    | .error _ => []
  | _ => []

/-- What an argument can name: itself, or the value behind an equals sign or a short name. -/
def namedByArgument (arg : String) : List String :=
  [arg, String.ofList ((arg.toList.dropWhile (· ≠ '=')).drop 1), String.ofList (arg.toList.drop 2)]

/-- The tree with what stands at some paths. Files come last: a directory holds only their names. -/
def addPaths (disk : Disk) (texts : List String) : IO Disk := do
  let disk ← texts.foldlM (addPath true) disk
  texts.foldlM (addPath false) disk

/-- The files that a run with some arguments can look at. -/
def files (args : List String) : IO Disk := do
  let current := Disk.follow [] (Text.split '/' (← IO.currentDir).toString)
  let named := "." :: "callgraph.db" :: args.flatMap namedByArgument
  let disk ← addPaths { top := "", tree := .dir [], current } named
  addPaths disk (named ++ namedBySettings disk args)

/-- Writes the files that a run changed. -/
def writeBack (r : CommandLine.Result) : IO Unit := do
  for text in r.touched do
    match r.disk.resolve text, r.disk.read text with
    | .ok path, .ok content => IO.FS.writeFile (absolute path) content
    | _, _ => pure ()

end CallAtlas.Shell

/-- Runs the command line. -/
def main (args : List String) : IO UInt32 := do
  let started ← IO.monoMsNow
  let r := CallAtlas.CommandLine.run args (← CallAtlas.Shell.files args)
  CallAtlas.Shell.writeBack r
  let elapsed := CallAtlas.CommandLine.seconds ((← IO.monoMsNow) - started)
  for line in r.lines elapsed do IO.println line
  if let some failure := r.failure then IO.eprintln failure
  return r.exit.toUInt32
