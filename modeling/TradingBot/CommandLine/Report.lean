import TradingBot.Config.Codec
import TradingBot.Market
import TradingBot.Registry

/-!
# The report on a configuration

**The report** (`Report.lines`). The engine's settings, the exchange, the alerts, a table of the
markets, and whether all that is named is registered.

**Missing components** (`Report.missing`). Each enabled market whose strategy is not registered,
in order, and then the adapter if it is not.
-/

namespace TradingBot.CommandLine.Report

variable {ω ς : Type}

/-- A text filled up with blanks to a width. -/
def cell (width : Nat) (s : String) : String :=
  s ++ String.ofList (List.replicate (width - s.length) ' ')

def row (id name pair strategy enabled : String) : String :=
  " ".intercalate [cell 12 id, cell 16 name, cell 10 pair, cell 16 strategy, cell 8 enabled]

def marketRow (m : Config.Market) : String :=
  row m.id m.name (Market.pairOf m.base m.counter) m.strategyId (if m.enabled then "yes" else "no")

def rule : String := String.ofList (List.replicate 66 '-')

def knowsAdapter (r : Registry ω ς) (c : Config) : Bool := (r.adapter? c.exchange.adapter).isSome

def missingStrategy? (r : Registry ω ς) (c : Config) (m : Config.Market) : Option String :=
  match c.strategy? m.strategyId with
  | none => none
  | some s =>
    if (r.strategy? s.className).isSome then none else some s!"strategy '{s.id}' ({s.className})"

def missing (r : Registry ω ς) (c : Config) : List String :=
  c.enabledMarkets.filterMap (missingStrategy? r c) ++
    (if knowsAdapter r c then [] else [s!"exchange adapter '{c.exchange.adapter}'"])

def stopText (e : Config.Engine) : String :=
  if e.WatchesBalance then s!"{e.stopCurrency} below {e.stopBalance.amount}" else "disabled"

def alertsText (a : Config.Alerts) : String :=
  match a.target with
  | some url => "webhook " ++ url
  | none => "log only"

def summary (r : Registry ω ς) (c : Config) : List String :=
  let known := if knowsAdapter r c then "" else " (unknown adapter)"
  ["", "=== BX-bot Configuration ===", "",
    s!"Bot:            {c.engine.botName} ({c.engine.botId})",
    s!"Cycle interval: {toString c.engine.cycleInterval}s",
    s!"Emergency stop: {stopText c.engine}",
    s!"Exchange:       {c.exchange.name} [{c.exchange.adapter}]{known}",
    s!"Alerts:         {alertsText c.alerts}",
    "", row "MARKET" "NAME" "PAIR" "STRATEGY" "ENABLED", rule] ++ c.markets.map marketRow

/-- Whether all is well, or else what could be named instead. -/
def verdict (r : Registry ω ς) (c : Config) : List String :=
  if missing r c = [] then ["", "Configuration OK"]
  else
    ["", "Available adapters:   " ++ ", ".intercalate r.adapterIds,
      "Available strategies: " ++ ", ".intercalate r.strategyIds]

def lines (r : Registry ω ς) (c : Config) : List String := summary r c ++ verdict r c

/-- The error that the report ends with, if something is missing. -/
def error? (r : Registry ω ς) (c : Config) : Option String :=
  match missing r c with
  | [] => none
  | parts => some ("unregistered components: " ++ ", ".intercalate parts)

end TradingBot.CommandLine.Report
