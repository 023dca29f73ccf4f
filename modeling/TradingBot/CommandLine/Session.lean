import TradingBot.Alert.Webhook
import TradingBot.CommandLine.Environment
import TradingBot.CommandLine.Options
import TradingBot.CommandLine.Report
import TradingBot.Config.Directory
import TradingBot.Engine.Time

/-!
# The command line

**Beginning** (`CommandLine.begin`). The arguments and the environment say what to do. A usage
error, a request for help and a check come to their end at once. A run with a configuration that
can be loaded begins a session.

**Sessions** (`Session`). The lines logged before the engine, and the engine, started. When the
start has ended, so does the session (`Session.end?`).

**Errors.** An error is written with the causes behind it, one a line and numbered if there are
several.
-/

namespace TradingBot.CommandLine

/-- What a program leaves: its exit code and the texts that it wrote. -/
structure Outcome where
  code : Nat
  output : String := ""
  errors : String := ""
deriving DecidableEq, Repr

/-! ## Errors -/

/-- A cause, its further lines indented like its first. -/
def indented (number : Option Nat) (cause : String) : String :=
  let first := match number with
    | some n => s!"    {toString n}: "
    | none => "    "
  let further := String.ofList (List.replicate first.length ' ')
  first ++ ("\n" ++ further).intercalate (cause.splitOn "\n")

/-- Causes behind an error, numbered if there are several. -/
def causesText (causes : List String) : String :=
  match causes with
  | [] => ""
  | [cause] => s!"\n\nCaused by:\n{indented none cause}"
  | causes =>
    "\n\nCaused by:\n" ++
      "\n".intercalate (causes.zipIdx.map fun (cause, n) => indented (some n) cause)

def errorText (message : String) (causes : List String) : String :=
  s!"Error: {message}{causesText causes}\n"

/-! ## Logs -/

def logText (threshold : LogLevel) (lines : List LogLine) : String :=
  String.join <|
    (lines.filter fun l => threshold.admits l.level).map fun l => l.render ++ "\n"

def readLines (s : Config.Source) : List LogLine :=
  s.opened.map fun path =>
    { level := .debug, message := "Reading config file", fields := [("path", path)] }

/-! ## Sessions -/

/-- The components of a bot on the command line. -/
def registry : Registry Paper.World MarketWatch :=
  Registry.bundled { get := id, set := fun w _ => w } MarketWatch.strategy

structure Session where
  level : LogLevel
  /-- What was logged before the engine. -/
  before : List LogLine
  engine : Engine Paper.World MarketWatch

namespace Session

/-- The last line of the log, and the error that the program ends with. -/
def closing (e : Engine Paper.World MarketWatch) :
    StartEnd → Option LogLine × Option (String × List String)
  | .ok =>
    (some
      { level := .info, message := "BX-bot stopped", fields := [("cycles", toString e.cycles)] },
      none)
  | .error error =>
    (some
      { level := .error, message := "BX-bot failed to start"
        fields := [("error", error.message)] },
      some (error.message, error.causes))
  | .crash (.text message) =>
    (none, some (s!"task 1 panicked with message {LogLine.quote message}", []))
  | .crash .unreadable => (none, some ("task 1 panicked", []))

def log (s : Session) : List LogLine := s.before ++ s.engine.lines.toList

def output (s : Session) : String := logText s.level s.log

/-- What the session leaves, once its start has ended. -/
def end? (s : Session) : Option Outcome :=
  match s.engine.starts with
  | [some result] =>
    let (line, error) := closing s.engine result
    let output := s.output ++ logText s.level line.toList
    match error with
    | none => some { code := 0, output }
    | some (message, causes) => some { code := 1, output, errors := errorText message causes }
  | _ => none

end Session

/-! ## Commands -/

/-- What a command begins with: its end, or a session. -/
inductive Beginning where
  | ended (o : Outcome)
  | session (s : Session)

/-- A configuration that cannot be loaded, with the lines logged until then. -/
def loadFailure (o : Options) (lines : List LogLine) (e : Config.Error) : Outcome :=
  { code := 1
    output := logText o.level lines
    errors := errorText ("invalid configuration in " ++ o.directory) (e.message :: e.causes) }

def check (o : Options) (source : Config.Source) : Outcome :=
  let reads := readLines source
  match source.load with
  | .error e => loadFailure o reads e
  | .ok c =>
    let report := String.join ((Report.lines registry c).map (· ++ "\n"))
    { code := if (Report.error? registry c).isSome then 1 else 0
      output := logText o.level reads ++ report
      errors := ((Report.error? registry c).map (errorText · [])).getD "" }

/-- Starts the engine over a source that can be loaded. -/
def run (o : Options) (source : Config.Source) (link : Http.Link) (epoch : Timestamp) : Beginning :=
  let loading : LogLine :=
    { level := .info, message := "Loading configuration", fields := [("config_dir", o.directory)] }
  let lines := loading :: readLines source
  match source.load with
  | .error e => .ended (loadFailure o lines e)
  | .ok c =>
    let alerter := (Alerter.ofConfig c.alerts c.engine.botId).zoom Paper.linkSlot
    let engine : Engine Paper.World MarketWatch :=
      { setup := { source, registry, alerter, epoch }, world := { link } }
    .session { level := o.level, before := lines, engine := engine.start }

def variablesFile : String := ".env"

/-- The environment with what the file of variables adds. -/
def environment (files : FileTree) (env : Environment) : Environment :=
  match files.text variablesFile with
  | .ok text => env.load text
  | .error _ => env

/-- What the arguments say, with the variables that the environment and the file give. -/
def parse (args : List String) (env : Environment) (files : FileTree) : Parsed :=
  Options.parse ((environment files env).get? directoryVariable) args

/-- Does what the arguments say, up to the end or into a session. -/
def begin (args : List String) (env : Environment) (files : FileTree) (link : Http.Link)
    (epoch : Timestamp) : Beginning :=
  match parse args env files with
  | .usageError => .ended { code := 2 }
  | .help text => .ended { code := 0, output := text }
  | .options o =>
    let source := Config.Directory.toSource { path := o.directory, tree := files }
    match o.command with
    | .check => .ended (check o source)
    | .run => run o source link epoch

/-- The outcome of a program that has come to its end within so many milliseconds. -/
def outcome? (limit : Nat) : Beginning → Option Outcome
  | .ended o => some o
  | .session s => { s with engine := s.engine.join limit }.end?

end TradingBot.CommandLine
