import TradingBot.Exchange.Api
import TradingBot.Market
import TradingBot.Text

/-!
# Strategies

**The interface** (`Strategy`). A strategy is set up once for a market and then executed once in
every trade cycle. Its instance keeps a state of its own; the exchange is handed to it with each
call.

**Faults** (`StrategyFault`). A strategy may ask to end the run, fail in a way that it did not
foresee, or crash. Each of them is fatal.

**The market watch** (`MarketWatch`). Logs the latest price of its market in every cycle, and the
best prices of the order book if asked to. It places no orders. A network error is skipped until the
next cycle; an API error ends the run.
-/

namespace TradingBot

inductive StrategyFault where
  /-- The strategy asks to end the run now. -/
  | failure (message : String)
  /-- A failure that was not foreseen, with the causes behind it, outermost first. -/
  | unexpected (message : String) (causes : List String)
  | crash (c : Crash)
deriving DecidableEq, Repr

/-- A strategy whose instances have states in `ς`. -/
structure Strategy (ω ς : Type) where
  fresh : ς
  init : Exchange ω → Market → Config.Strategy → ς → Program ω (Except StrategyFault Unit × ς)
  execute : Exchange ω → ς → Program ω (Except StrategyFault Unit × ς)

namespace Strategy

/-- The strategy with its states among others; a state of another kind counts as a new one. -/
def within {ω σ ς : Type} (put : σ → ς) (get? : ς → Option σ) (s : Strategy ω σ) :
    Strategy ω ς where
  fresh := put s.fresh
  init x m c t := do
    let (r, t) ← s.init x m c ((get? t).getD s.fresh)
    return (r, put t)
  execute x t := do
    let (r, t) ← s.execute x ((get? t).getD s.fresh)
    return (r, put t)

end Strategy

/-! ## The market watch -/

/-- What an instance of the market watch keeps. -/
structure MarketWatch where
  /-- The market that it is set up for. -/
  market : Option Market := none
  logsBook : Bool := false
  /-- The price of the last cycle that went well. -/
  lastPrice : Option Decimal := none
deriving DecidableEq, Repr

namespace MarketWatch

def bookKey : String := "log-order-book"

def ofFlag? (s : String) : Option Bool :=
  if s = "true" then some true else if s = "false" then some false else none

/-- Whether the settings ask for the order book; they need not say. -/
def readFlag (c : Config.Strategy) : Except StrategyFault Bool :=
  match c.items.get? bookKey with
  | none => .ok false
  | some raw =>
    match ofFlag? (Text.trim raw) with
    | some b => .ok b
    | none =>
      .error (.failure s!"Invalid '{bookKey}' value '{raw}' for strategy {c.id}")

variable {ω : Type}

def init (x : Exchange ω) (m : Market) (c : Config.Strategy) (s : MarketWatch) :
    Program ω (Except StrategyFault Unit × MarketWatch) := do
  match readFlag c with
  | .error e => return (.error e, s)
  | .ok logsBook =>
    Program.tell .info "Market watch initialised"
      [("market", m.id), ("exchange", LogLine.quote x.implName),
        ("log_order_book", toString logsBook)]
    return (.ok (), { s with market := some m, logsBook })

/-- What an exchange's fault means for the cycle. -/
def judge (m : Market) : Fault → Program ω (Except StrategyFault Unit)
  | .error (.network detail) => do
    Program.tell .warn "Network error, will retry next cycle"
      [("market", m.id), ("error", detail)]
    return .ok ()
  | .error (.api detail) =>
    return .error (.failure s!"Exchange API error while watching market {m.id}: {detail}")
  | .crash c => return .error (.crash c)

/-- A price as it is logged, be it there or not. -/
def renderBest : Option Decimal → String
  | none => "None"
  | some price => s!"Some({price.render})"

def watchBook (x : Exchange ω) (m : Market) (s : MarketWatch) :
    Program ω (Except StrategyFault Unit) := do
  if s.logsBook then
    match ← (x.orderBook m.id).run with
    | .error fault => judge m fault
    | .ok book =>
      Program.tell .info "Order book top"
        [("market", m.id), ("best_bid", renderBest book.bestBid),
          ("best_ask", renderBest book.bestAsk)]
      return .ok ()
  else return .ok ()

def watch (x : Exchange ω) (m : Market) (s : MarketWatch) :
    Program ω (Except StrategyFault Unit × MarketWatch) := do
  match ← (x.price m.id).run with
  | .error fault => return (← judge m fault, s)
  | .ok price =>
    Program.tell .info "Latest market price" [("market", m.id), ("price", price.render)]
    match ← watchBook x m s with
    | .error e => return (.error e, s)
    | .ok () => return (.ok (), { s with lastPrice := some price })

def execute (x : Exchange ω) (s : MarketWatch) :
    Program ω (Except StrategyFault Unit × MarketWatch) :=
  match s.market with
  | none => return (.error (.failure "market watch executed before init"), s)
  | some m => watch x m s

def strategy : Strategy ω MarketWatch where
  fresh := {}
  init := init
  execute := execute

end MarketWatch

end TradingBot
