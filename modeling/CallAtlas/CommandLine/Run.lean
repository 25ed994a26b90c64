import CallAtlas.CommandLine.Options
import CallAtlas.Export
import CallAtlas.Pipeline
import CallAtlas.Settings.File
import CallAtlas.Store.File

/-!
# Running the command line

A run reads its settings, opens the database, analyses a directory into it and writes the graph to a
file if it is asked to. It is a function of the files that are there: its result holds the exit
status, what is printed, and the files after it. Only the time that it takes is filled in later.
-/

set_option autoImplicit false

namespace CallAtlas.CommandLine

/-- What a run does, from the options and the settings file. -/
structure Plan where
  settings : Settings
  database : String
  output : Option String
deriving DecidableEq, Repr, Inhabited

/-- Why a run fails. -/
inductive Failure where
  | config (path : String)
  | database (path : String)
  | output (path : String)
  | analysis (error : Error)
deriving DecidableEq, Repr, Inhabited

/-- The text of a failure. -/
def Failure.message : Failure → String
  | .config path => s!"loading config {path}"
  | .database path => s!"opening database {path}"
  | .output path => s!"writing {path}"
  | .analysis error => error.message

/-- The plan that options and a settings file give; options come first. -/
def Plan.of (o : Options) (file : FileSettings) : Except Error Plan := do
  let algorithm ← Algorithm.ofName ((o.algorithm <|> file.algorithm).getD Algorithm.valueFlow.name)
  let settings : Settings := {
    root := (o.dir <|> file.root).getD "."
    algorithm
    ignore := Settings.ignoreList ((o.ignore <|> file.ignore).getD "") }
  return {
    settings := settings.withCapacity ((o.capacity <|> file.capacity) <|> settings.capacity)
    database := (o.database <|> file.database).getD "callgraph.db"
    output := o.output <|> file.output }

/-- The lines in front of an analysis. -/
def Plan.header (p : Plan) : List String :=
  [s!"{programName} - Go call graph extraction", s!"Root: {p.settings.root}",
    s!"Algorithm: {p.settings.algorithm.name}", s!"Database: {p.database}"] ++
  if p.settings.ignore.isEmpty then [] else ["Ignoring: " ++ Text.join ", " p.settings.ignore]

/-- What a run leaves: its exit status, the lines printed before the analysis, its messages, the
file with the graph and the counts to be printed after it, the failure, the paths that it writes to,
and the files. -/
structure Result where
  exit : Nat := 0
  header : List String := []
  messages : Messages := {}
  exported : Option String := none
  stats : Option Stats := none
  failure : Option String := none
  touched : List String := []
  disk : Disk

/-- The lines after an analysis that took some time. -/
def Result.footer (r : Result) (elapsed : String) : List String :=
  let exported := match r.exported with
    | some path => [s!"JSON output: {path}"]
    | none => []
  let saved := match r.stats with
    | none => []
    | some s =>
      let skipped :=
        if s.nodeErrors + s.edgeErrors = 0 then []
        else [s!"Skipped {s.nodeErrors} nodes and {s.edgeErrors} edges that could not be saved"]
      s!"Saved {s.nodesSaved} nodes and {s.edgesSaved} edges in {elapsed}s" :: skipped
  exported ++ saved

/-- A time in seconds with two places. -/
def seconds (milliseconds : Nat) : String :=
  let hundredths := (Ratio.mk milliseconds 10).round
  let places := toString (hundredths % 100)
  toString (hundredths / 100) ++ "." ++ "".pushn '0' (2 - places.length) ++ places

/-- All lines that a run prints. -/
def Result.lines (r : Result) (elapsed : String) : List String :=
  r.header ++ r.messages.main.take 1 ++ r.messages.nodes ++ r.messages.edges ++
    r.messages.main.drop 1 ++ r.footer elapsed

/-- The result of a run that fails. -/
def Result.fail (r : Result) (failure : Failure) : Result :=
  { r with exit := 1, failure := some ("Error: " ++ failure.message) }

/-- Writes the graph to a file if one is asked for. -/
def writeGraph (p : Plan) (graph : KeyGraph) (r : Result) : Result :=
  match p.output with
  | none => r
  | some path =>
    match r.disk.write path (graph.exported .compact) with
    | .ok disk => { r with disk, exported := some path, touched := r.touched ++ [path] }
    | .error _ => { r with stats := none }.fail (.output path)

/-- Analyses into a database that is open. -/
def analyse (p : Plan) (platform : Build.Platform) (db : Store.Database) (r : Result) : Result :=
  let o := r.disk.analyseInto p.settings false (.database db) platform
  let disk := match o.store with
    | .database db => ((r.disk.closeDatabase p.database db).toOption).getD r.disk
    | .memory _ => r.disk
  let r := { r with disk, messages := o.messages }
  match o.result with
  | .error error => r.fail (.analysis error)
  | .ok (graph, stats) => writeGraph p graph { r with stats := some stats }

/-- Does what a plan says. -/
def runPlan (p : Plan) (platform : Build.Platform) (disk : Disk) : Result :=
  let r : Result := { header := p.header, disk }
  match disk.openDatabase p.database with
  | .error _ => r.fail (.database p.database)
  | .ok (db, disk) => analyse p platform db { r with disk, touched := [p.database] }

/-- Runs with some options. -/
def runOptions (o : Options) (platform : Build.Platform) (disk : Disk) : Result :=
  let r : Result := { disk }
  let file : Except Failure FileSettings := match o.config with
    | none => .ok {}
    | some path => (disk.fileSettings path).mapError fun _ => Failure.config path
  match file with
  | .error failure => r.fail failure
  | .ok file =>
    match Plan.of o file with
    | .error error => r.fail (.analysis error)
    | .ok plan => runPlan plan platform disk

/-- Runs with some arguments. -/
def run (args : List String) (disk : Disk) (platform : Build.Platform := .host) : Result :=
  match request args with
  | .error error => { exit := 2, failure := some error.message, disk }
  | .ok .help => { header := helpLines, disk }
  | .ok .version => { header := [versionLine], disk }
  | .ok (.run o) => runOptions o platform disk

end CallAtlas.CommandLine
