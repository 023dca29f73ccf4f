import TradingBot.Program

/-!
# Arguments

**The type** (`Options`). The directory of the configuration, the level of the log, and the command.

**Reading** (`Options.parse`). Options come before the command, each at most once, with their value
behind them, after an equals sign, or, for a short one, right after its letter. The arguments end in
options, in a request for help, or in a usage error.
-/

namespace TradingBot.CommandLine

inductive Command where
  | run
  | check
deriving DecidableEq, Repr

structure Options where
  directory : String
  level : LogLevel
  command : Command
deriving DecidableEq, Repr

inductive Parsed where
  | options (o : Options)
  | help (text : String)
  | usageError
deriving DecidableEq, Repr

/-- The variable that names the directory. -/
def directoryVariable : String := "BXBOT_CONFIG_DIR"

def defaultDirectory : String := "./config"

/-! ## Help -/

def Command.name : Command → String
  | run => "run"
  | check => "check"

def Command.about : Command → String
  | run => "Start the trading engine and run until Ctrl-C or a fatal error"
  | check => "Load and validate the configuration, then print a summary"

def helpAbout : String := "Print this message or the help of the given subcommand(s)"

def Command.help (c : Command) : String :=
  s!"{c.about}\n\nUsage: bxbot {c.name}\n\nOptions:\n  -h, --help  Print help\n"

def helpOfHelp : String :=
  s!"{helpAbout}\n\nUsage: bxbot help [COMMAND]...\n\nArguments:\n" ++
    "  [COMMAND]...  Print help for the subcommand(s)\n"

/-- The help of the whole program, which shows the variable as it is set. -/
def help (directory : Option String) : String :=
  let shown := directory.getD ""
  "Automated trading engine for cryptocurrency exchanges\n\n" ++
    "Usage: bxbot [OPTIONS] <COMMAND>\n\n" ++
    "Commands:\n" ++
    s!"  run    {Command.run.about}\n" ++
    s!"  check  {Command.check.about}\n" ++
    s!"  help   {helpAbout}\n\n" ++
    "Options:\n" ++
    "  -c, --config-dir <CONFIG_DIR>  Directory holding engine.yaml, exchange.yaml, " ++
    s!"markets.yaml and strategies.yaml [env: {directoryVariable}={shown}] " ++
    s!"[default: {defaultDirectory}]\n" ++
    "  -l, --log-level <LOG_LEVEL>    Log level (trace, debug, info, warn, error) " ++
    "[default: info]\n" ++
    "  -h, --help                     Print help\n"

/-! ## Reading -/

/-- An option that takes a value. -/
inductive Setting where
  | directory
  | level
deriving DecidableEq, Repr

/-- What an argument in front of the command is. -/
inductive Argument where
  | setting (s : Setting) (value : Option String)
  | help
  | word (w : String)
  | unknown
deriving DecidableEq, Repr

def Setting.ofLetter? (c : Char) : Option Setting :=
  if c = 'c' then some .directory else if c = 'l' then some .level else none

def Setting.ofName? (s : String) : Option Setting :=
  if s = "config-dir" then some .directory else if s = "log-level" then some .level else none

def Argument.ofText (arg : String) : Argument :=
  match arg.toList with
  | '-' :: '-' :: cs =>
    let name := cs.takeWhile (· != '=')
    let value := (cs.dropWhile (· != '=')).tail
    match Setting.ofName? (String.ofList name) with
    | some s => .setting s (if cs.contains '=' then some (String.ofList value) else none)
    | none => if cs = ['h', 'e', 'l', 'p'] then .help else .unknown
  | '-' :: c :: cs =>
    match Setting.ofLetter? c with
    | some s =>
      match cs with
      | [] => .setting s none
      | '=' :: value => .setting s (some (String.ofList value))
      | value => .setting s (some (String.ofList value))
    | none => if c = 'h' then .help else .unknown
  | _ => .word arg

/-- Whether an argument can stand behind an option as its value. -/
def isValue (arg : String) : Bool :=
  match arg.toList with
  | '-' :: _ :: _ => false
  | _ => true

structure Values where
  directory : Option String := none
  level : Option String := none

/-- Notes the value of an option; a second one, or an empty directory, is refused. -/
def Values.set (v : Values) (s : Setting) (value : String) : Option Values :=
  match s with
  | .directory =>
    if v.directory.isSome ∨ value = "" then none else some { v with directory := some value }
  | .level => if v.level.isSome then none else some { v with level := some value }

/-- What stands behind a command: nothing, the mark that ends the options, or a request for help. -/
def behindCommand (help : String) (options : Option Options) : List String → Parsed
  | [] | ["--"] =>
    match options with
    | some o => .options o
    | none => .usageError
  | arg :: _ => if Argument.ofText arg = .help then .help help else .usageError

/-- The options of the values given, or of the variable, or of the defaults. -/
def Values.options (v : Values) (named : Option String) (command : Command) : Option Options :=
  let directory := (v.directory.or named).getD defaultDirectory
  if directory = "" then none
  else some { directory, level := .ofName (v.level.getD "info"), command }

/-- What stands behind `help`: at most one command. -/
def behindHelp (named : Option String) : List String → Parsed
  | [] => .help (help named)
  | ["run"] => .help Command.run.help
  | ["check"] => .help Command.check.help
  | ["help"] => .help helpOfHelp
  | _ => .usageError

/-- Reads the arguments in front of the command, and the command. -/
def parseFrom (named : Option String) (v : Values) : List String → Parsed
  | [] => .usageError
  | arg :: args =>
    match Argument.ofText arg with
    | .unknown => .usageError
    | .help => .help (help named)
    | .setting s (some value) =>
      match v.set s value with
      | some v => parseFrom named v args
      | none => .usageError
    | .setting s none =>
      match args with
      | value :: args =>
        if isValue value then
          match v.set s value with
          | some v => parseFrom named v args
          | none => .usageError
        else .usageError
      | [] => .usageError
    | .word "run" => behindCommand Command.run.help (v.options named .run) args
    | .word "check" => behindCommand Command.check.help (v.options named .check) args
    | .word "help" => behindHelp named args
    | .word _ => .usageError

/-- Reads the arguments; `named` is the directory that the environment names. -/
def Options.parse (named : Option String) (args : List String) : Parsed :=
  parseFrom named {} args

end TradingBot.CommandLine
