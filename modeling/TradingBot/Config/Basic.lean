import TradingBot.Decimal.Basic
import TradingBot.Dict
import TradingBot.Text
import TradingBot.Decimal.Text
import TradingBot.FileTree

/-!
# The configuration of a bot

**Sections** (`Config`). The engine's own settings, the exchange, the markets, the strategies, and
the alerts. A market names the strategy that trades on it; a strategy names the class that
implements it and holds items that only this class understands.

**Transient failures** (`Config.Network.Excuses`). The exchange's network settings list status codes
and fragments of messages. A failure that matches one of them is expected to pass.

**The rules** (`Config.Valid`). The bot has an identifier and a pause between its cycles; a watched
balance is not negative and has a currency; the exchange has an adapter; identifiers of strategies
and of markets are unique; every enabled market names a strategy that is listed. `Config.violation?`
is the first rule that a configuration breaks, in this order.

**Sources** (`Config.Source`). Five sections that may each fail to be read. A section that is kept
in a file names it. They are read in their order (`Config.Source.load`). The first failure ends the
loading; the configuration that they make up must be valid.
-/

namespace TradingBot

/-! ## Sections -/

namespace Config

/-- Settings of the engine itself. -/
structure Engine where
  botId : String
  botName : String := ""
  /-- The currency whose free balance is watched. -/
  stopCurrency : String := ""
  /-- The least free balance; zero turns the watch off. -/
  stopBalance : Decimal := .zero
  /-- Seconds between trade cycles. -/
  cycleInterval : UInt64
deriving DecidableEq, Repr

def Engine.WatchesBalance (e : Engine) : Prop := .zero < e.stopBalance

instance (e : Engine) : Decidable e.WatchesBalance :=
  inferInstanceAs (Decidable (Decimal.zero < e.stopBalance))

/-- How an exchange's own calls over the network behave. -/
structure Network where
  /-- Seconds until a call is given up. -/
  timeout : UInt64 := 30
  transientCodes : List UInt16 := []
  transientMessages : List String := []
deriving DecidableEq, Repr

/-- Whether a failure with this status and message is a transient one. -/
def Network.Excuses (n : Network) (status : Option Nat) (message : String) : Prop :=
  (∃ code ∈ n.transientCodes, status = some code.toNat) ∨
    ∃ fragment ∈ n.transientMessages, fragment ≠ "" ∧ Text.occursIn fragment message

instance (n : Network) (status : Option Nat) (message : String) :
    Decidable (n.Excuses status message) :=
  inferInstanceAs (Decidable (_ ∨ _))

structure Exchange where
  name : String
  /-- The registered name of the adapter. -/
  adapter : String
  authentication : Dict String := {}
  network : Option Network := none
  /-- Settings that only the adapter understands. -/
  other : Dict String := {}
deriving DecidableEq

/-- The network settings, those of an empty section if there is none. -/
def Exchange.networkOrDefault (e : Exchange) : Network := e.network.getD {}

/-- A market and the strategy that trades on it. -/
structure Market where
  id : String
  name : String
  base : String
  counter : String
  enabled : Bool := false
  strategyId : String
deriving DecidableEq, Repr

structure Strategy where
  id : String
  name : String
  description : String := ""
  /-- The registered name of the implementation. -/
  className : String
  /-- Settings that only the implementation understands. -/
  items : Dict String := {}
deriving DecidableEq

structure Alerts where
  enabled : Bool := false
  webhook : Option String := none
deriving DecidableEq, Repr

/-- The address that alerts are sent to, if they are to be sent at all. -/
def Alerts.target (a : Alerts) : Option String := if a.enabled then a.webhook else none

end Config

/-- All that a bot is told before it starts. -/
structure Config where
  engine : Config.Engine
  exchange : Config.Exchange
  markets : List Config.Market := []
  strategies : List Config.Strategy := []
  alerts : Config.Alerts := {}
deriving DecidableEq

namespace Config

/-- The markets to trade on, in the order in which they are listed. -/
def enabledMarkets (c : Config) : List Market := c.markets.filter (·.enabled)

def strategy? (c : Config) (id : String) : Option Strategy := c.strategies.find? (·.id == id)

end Config

end TradingBot

namespace TradingBot.Config

/-! ## Valid configurations -/

inductive Violation where
  | blankBotId
  | zeroInterval
  | negativeStopBalance (balance : Decimal)
  | blankStopCurrency
  | blankAdapter
  | repeatedStrategy (id : String)
  | repeatedMarket (id : String)
  | unknownStrategy (marketId strategyId : String)
deriving DecidableEq, Repr

namespace Violation

def text : Violation → String
  | blankBotId => "engine botId must not be empty"
  | zeroInterval => "engine tradeCycleInterval must be a positive number of seconds"
  | negativeStopBalance balance =>
    "engine emergencyStopBalance must not be negative, got " ++ balance.render
  | blankStopCurrency =>
    "engine emergencyStopCurrency is required when emergencyStopBalance is set"
  | blankAdapter => "exchange adapter must not be empty"
  | repeatedStrategy id => s!"duplicate strategy id '{id}'"
  | repeatedMarket id => s!"duplicate market id '{id}'"
  | unknownStrategy marketId strategyId =>
    s!"market '{marketId}' references unknown tradingStrategyId '{strategyId}'"

end Violation

/-! ## The rules -/

def Engine.Valid (e : Engine) : Prop :=
  ¬ Text.Blank e.botId ∧ e.cycleInterval ≠ 0 ∧ .zero ≤ e.stopBalance ∧
    (e.WatchesBalance → ¬ Text.Blank e.stopCurrency)

def Valid (c : Config) : Prop :=
  c.engine.Valid ∧ ¬ Text.Blank c.exchange.adapter ∧ (c.strategies.map (·.id)).Nodup ∧
    (c.markets.map (·.id)).Nodup ∧
    ∀ m ∈ c.enabledMarkets, m.strategyId ∈ c.strategies.map (·.id)

/-! ## The check -/

def Engine.violation? (e : Engine) : Option Violation :=
  if Text.Blank e.botId then some .blankBotId
  else if e.cycleInterval = 0 then some .zeroInterval
  else if e.stopBalance < .zero then some (.negativeStopBalance e.stopBalance)
  else if e.WatchesBalance ∧ Text.Blank e.stopCurrency then some .blankStopCurrency
  else none

/-- The first of the identifiers that occurred before, be it among those seen. -/
def firstRepeated (seen : List String) : List String → Option String
  | [] => none
  | id :: ids => if id ∈ seen then some id else firstRepeated (id :: seen) ids

/-- The first market that repeats an identifier or names a strategy that is not listed. -/
def marketViolation? (strategyIds : List String) (seen : List String) :
    List Market → Option Violation
  | [] => none
  | m :: ms =>
    if m.id ∈ seen then some (.repeatedMarket m.id)
    else if m.enabled ∧ m.strategyId ∉ strategyIds then some (.unknownStrategy m.id m.strategyId)
    else marketViolation? strategyIds (m.id :: seen) ms

def violation? (c : Config) : Option Violation :=
  match c.engine.violation? with
  | some v => some v
  | none =>
    if Text.Blank c.exchange.adapter then some .blankAdapter
    else
      match firstRepeated [] (c.strategies.map (·.id)) with
      | some id => some (.repeatedStrategy id)
      | none => marketViolation? (c.strategies.map (·.id)) [] c.markets

/-! ## Sources -/

inductive Error where
  | unreadable (path : String) (failure : ReadFailure)
  | malformed (path : String)
  | invalid (violation : Violation)
deriving DecidableEq, Repr

namespace Error

/-- The words of the YAML reader, which stand behind the path of a malformed file, are left out. -/
def message : Error → String
  | unreadable path failure => s!"failed to read {path}: {failure.text}"
  | malformed path => "failed to parse " ++ path
  | invalid violation => "invalid configuration: " ++ violation.text

/-- The texts of what lies behind the error, outermost first. Behind a malformed file stands the
YAML reader's own text; one fixed text takes its place here. -/
def causes : Error → List String
  | unreadable _ failure => [failure.text]
  | malformed _ => ["not the document that is expected"]
  | invalid _ => []

end Error

/-- One section: the file that it is read from, if one is opened, and what it holds. -/
structure Section (α : Type) where
  path : Option String := none
  content : Except Error α

/-- Where the sections of a configuration come from. -/
structure Source where
  engine : Section Engine
  exchange : Section Exchange
  markets : Section (List Market)
  strategies : Section (List Strategy)
  alerts : Section Alerts

def toSource (c : Config) : Source where
  engine := { content := .ok c.engine }
  exchange := { content := .ok c.exchange }
  markets := { content := .ok c.markets }
  strategies := { content := .ok c.strategies }
  alerts := { content := .ok c.alerts }

/-- A configuration that breaks no rule. -/
def check (c : Config) : Except Error Config :=
  match c.violation? with
  | some v => .error (.invalid v)
  | none => .ok c

namespace Source

/-- The sections in their order, whether or not they fit together. -/
def sections (s : Source) : Except Error Config := do
  return {
    engine := ← s.engine.content
    exchange := ← s.exchange.content
    markets := ← s.markets.content
    strategies := ← s.strategies.content
    alerts := ← s.alerts.content }

def load (s : Source) : Except Error Config := s.sections.bind check

/-- The files that a section opens, and then those that follow it if it can be read. -/
def openedFrom {α : Type} (sec : Section α) (rest : List String) : List String :=
  sec.path.toList ++ (match sec.content with | .ok _ => rest | .error _ => [])

/-- The files that loading opens, in order. -/
def opened (s : Source) : List String :=
  openedFrom s.engine <| openedFrom s.exchange <| openedFrom s.markets <|
    openedFrom s.strategies <| openedFrom s.alerts []

end Source

end TradingBot.Config
