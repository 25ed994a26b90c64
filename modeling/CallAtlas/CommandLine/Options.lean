import CallAtlas.Text.Basic

/-!
# Options

The options of the command line. Every option takes one value and may be given once. A long name
takes it behind an equals sign or as the next argument; a short name also without a sign. The next
argument is no value if it starts with a dash and is longer than that. Arguments are read from left
to right, and the first fault or the first call for help or for the version decides.
-/

set_option autoImplicit false

namespace CallAtlas.CommandLine

/-- The options that take a value. -/
inductive Flag where
  | dir
  | algorithm
  | ignore
  | database
  | output
  | config
  | capacity
deriving DecidableEq, Repr, Inhabited

namespace Flag

/-- All options in the order of the help text. -/
def all : List Flag := [.dir, .algorithm, .ignore, .database, .output, .config, .capacity]

/-- The long name. -/
def long : Flag → String
  | .dir => "dir"
  | .algorithm => "algo"
  | .ignore => "ignore"
  | .database => "db"
  | .output => "output"
  | .config => "config"
  | .capacity => "capacity"

/-- The short name. -/
def short? : Flag → Option Char
  | .dir => some 'd'
  | .algorithm => some 'a'
  | .ignore => some 'i'
  | .database => none
  | .output => some 'o'
  | .config => some 'c'
  | .capacity => none

/-- The name of the value in the help text. -/
def valueName : Flag → String
  | .dir => "PATH"
  | .algorithm => "ALGO"
  | .ignore => "PREFIXES"
  | .database => "FILE"
  | .output => "FILE"
  | .config => "FILE"
  | .capacity => "N"

/-- What the option does. -/
def description : Flag → String
  | .dir => "Directory to analyze; must be inside a Go module"
  | .algorithm => "Call graph algorithm: static, cha, rta, vta"
  | .ignore => "Comma-separated prefixes of qualified names to leave out"
  | .database => "SQLite database file"
  | .output => "Also write the filtered graph as JSON"
  | .config => "TOML configuration file; flags take precedence"
  | .capacity => "Capacity of the node and edge channels; 0 means unbounded"

/-- The option with a long name. -/
def ofLong? (name : String) : Option Flag := all.find? fun f => f.long == name

/-- The option with a short name. -/
def ofShort? (c : Char) : Option Flag := all.find? fun f => f.short? == some c

end Flag

/-- What the options say. -/
structure Options where
  dir : Option String := none
  algorithm : Option String := none
  ignore : Option String := none
  database : Option String := none
  output : Option String := none
  config : Option String := none
  capacity : Option Nat := none
deriving DecidableEq, Repr, Inhabited

/-- What is wrong with the arguments. -/
inductive UsageError where
  | unexpected (arg : String)
  | missingValue (flag : Flag)
  | invalidValue (flag : Flag) (value : String)
  | repeated (flag : Flag)
deriving DecidableEq, Repr, Inhabited

/-- The text of a fault. -/
def UsageError.message : UsageError → String
  | .unexpected arg => s!"error: unexpected argument '{arg}' found"
  | .missingValue flag => s!"error: a value is required for '--{flag.long}' but none was supplied"
  | .invalidValue flag value => s!"error: invalid value '{value}' for '--{flag.long}'"
  | .repeated flag => s!"error: the argument '--{flag.long}' cannot be used multiple times"

/-- What the arguments ask for. -/
inductive Request where
  | run (options : Options)
  | help
  | version
deriving DecidableEq, Repr, Inhabited

/-! ## Values -/

/-- The largest capacity that can be given. -/
def maxCapacity : Nat := 18446744073709551615

/-- A natural number up to the largest capacity, with or without a plus sign. -/
def capacity? (text : String) : Option Nat :=
  let cs := text.toList
  let digits := if cs.head? == some '+' then cs.tail else cs
  let n := digits.foldl (fun n c => n * 10 + (c.toNat - '0'.toNat)) 0
  if !digits.isEmpty && digits.all Char.isDigit && n ≤ maxCapacity then some n else none

namespace Options

variable (o : Options)

/-- The option was given. -/
def has : Flag → Bool
  | .dir => o.dir.isSome
  | .algorithm => o.algorithm.isSome
  | .ignore => o.ignore.isSome
  | .database => o.database.isSome
  | .output => o.output.isSome
  | .config => o.config.isSome
  | .capacity => o.capacity.isSome

/-- The options with one more value. A path is not empty. -/
def put? (flag : Flag) (value : String) : Option Options :=
  let path := if value.isEmpty then none else some value
  match flag with
  | .dir => path.map fun p => { o with dir := some p }
  | .algorithm => some { o with algorithm := some value }
  | .ignore => some { o with ignore := some value }
  | .database => path.map fun p => { o with database := some p }
  | .output => path.map fun p => { o with output := some p }
  | .config => path.map fun p => { o with config := some p }
  | .capacity => (capacity? value).map fun n => { o with capacity := some n }

/-- The options with one more value, which must be new and right. -/
def set (flag : Flag) (value : String) : Except UsageError Options :=
  if o.has flag then .error (.repeated flag)
  else
    match o.put? flag value with
    | some o => .ok o
    | none => .error (.invalidValue flag value)

end Options

/-! ## Arguments -/

/-- An argument by its form: the end of options, a long name with its value, a short name with what
stands behind it, or a word. -/
inductive Argument where
  | escape
  | long (name : String) (value : Option String)
  | short (name : Char) (rest : String)
  | word
deriving DecidableEq, Repr, Inhabited

/-- The form of an argument. -/
def Argument.of (arg : String) : Argument :=
  match arg.toList with
  | ['-', '-'] => .escape
  | '-' :: '-' :: cs =>
    match cs.dropWhile (· ≠ '=') with
    | '=' :: value =>
      .long (String.ofList (cs.takeWhile (· ≠ '='))) (some (String.ofList value))
    | _ => .long (String.ofList cs) none
  | '-' :: c :: rest => .short c (String.ofList rest)
  | _ => .word

/-- What a name with the value attached to it stands for. -/
inductive Found where
  | help
  | version
  | flag (flag : Flag) (value : Option String)
  | unknown
deriving DecidableEq, Repr, Inhabited

/-- What an argument stands for. The value behind a short name may start with an equals sign. -/
def Argument.found : Argument → Found
  | .long "help" none => .help
  | .long "version" none => .version
  | .long name value => (Flag.ofLong? name).elim .unknown fun f => .flag f value
  | .short 'h' _ => .help
  | .short 'V' _ => .version
  | .short c rest =>
    (Flag.ofShort? c).elim .unknown fun f =>
      .flag f (if rest.isEmpty then none else some ((Text.stripPrefix? "=" rest).getD rest))
  | _ => .unknown

/-- Reads arguments from left to right. -/
def readArguments (o : Options) : List String → Except UsageError Request
  | [] => .ok (.run o)
  | arg :: rest =>
    if Argument.of arg = .escape then
      match rest with
      | [] => .ok (.run o)
      | word :: _ => .error (.unexpected word)
    else
      match (Argument.of arg).found with
      | .help => .ok .help
      | .version => .ok .version
      | .unknown => .error (.unexpected arg)
      | .flag flag (some value) => do readArguments (← o.set flag value) rest
      | .flag flag none =>
        match rest with
        | [] => .error (.missingValue flag)
        | value :: rest =>
          if Argument.of value = .word then do readArguments (← o.set flag value) rest
          else .error (.missingValue flag)

/-- What some arguments ask for. -/
def request (args : List String) : Except UsageError Request := readArguments {} args

/-! ## Help -/

/-- The name of the program. -/
def programName : String := "gocallgraph"

/-- The line of the version. -/
def versionLine : String := s!"{programName} 0.1.0"

/-- A line of the help text: names in a column of their own. -/
def helpLine (names description : String) : String :=
  "  " ++ names ++ "".pushn ' ' (25 - names.length) ++ description

/-- The names of an option in the help text. -/
def Flag.names (f : Flag) : String :=
  let short := match f.short? with
    | some c => s!"-{c}, "
    | none => "    "
  s!"{short}--{f.long} <{f.valueName}>"

/-- The help text. -/
def helpLines : List String :=
  ["Build the call graph of a Go module and store it in SQLite", "",
    s!"Usage: {programName} [OPTIONS]", "", "Options:"] ++
  Flag.all.map (fun f => helpLine f.names f.description) ++
  [helpLine "-h, --help" "Print help", helpLine "-V, --version" "Print version"]

end CallAtlas.CommandLine
