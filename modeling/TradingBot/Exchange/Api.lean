import TradingBot.Decimal.Arithmetic
import TradingBot.Market
import TradingBot.Program
import TradingBot.Config.Basic

/-!
# What an exchange offers

**Errors** (`ApiError`). An exchange's call fails in one of two ways. A network error is
transient: a later cycle may try again. An API error is final.

**Calls** (`Call`). A call to an exchange is a program that ends with a value or a fault, which is
an error or a crash. The world keeps what the call did to it before it failed.

**The interface** (`Exchange`). Prices, order books, tickers, balances and fees, and our own orders:
placing, listing and cancelling them. The engine and all strategies of a run share one exchange.

**Adapters** (`Adapter`). An exchange together with its setting up: a fresh instance that is then
initialised once from the configuration.
-/

namespace TradingBot

/-! ## Faults -/

inductive ApiError where
  | network (detail : String)
  | api (detail : String)
deriving DecidableEq, Repr

namespace ApiError

def detail : ApiError → String
  | network detail => detail
  | api detail => detail

def isNetwork : ApiError → Bool
  | network _ => true
  | api _ => false

def message : ApiError → String
  | network detail => "exchange network error: " ++ detail
  | api detail => "exchange API error: " ++ detail

/-- The error with this detail, transient or final. -/
def of (transient : Bool) (detail : String) : ApiError :=
  if transient then network detail else api detail

end ApiError

inductive Fault where
  | error (e : ApiError)
  | crash (c : Crash)
deriving DecidableEq, Repr

/-! ## Calls and adapters -/

/-- A program that gives a value or fails. -/
abbrev Call (ω α : Type) := ExceptT Fault (Program ω) α

namespace Call

variable {ω σ α : Type}

def fail (e : ApiError) : Call ω α := ExceptT.mk (pure (.error (.error e)))

def lift (p : Program ω α) : Call ω α := ExceptT.mk (do return .ok (← p))

def ofExcept : Except ApiError α → Call ω α
  | .ok a => pure a
  | .error e => fail e

/-- A computation that may crash. -/
def compute : Except Crash α → Call ω α
  | .ok a => pure a
  | .error c => ExceptT.mk (pure (.error (.crash c)))

def zoom (slot : Program.Slot ω σ) (c : Call σ α) : Call ω α := ExceptT.mk (c.run.zoom slot)

end Call

structure Ticket where
  marketId : String
  side : Side
  quantity : Decimal
  price : Decimal
deriving DecidableEq, Repr

/-- The calls that an exchange answers; markets are given by their identifiers. -/
structure Exchange (ω : Type) where
  implName : String
  orderBook : String → Call ω OrderBook
  openOrders : String → Call ω (List OpenOrder)
  /-- Places an order and tells its identifier. -/
  place : Ticket → Call ω String
  /-- Withdraws the order with an identifier from a market; tells whether there was one. -/
  cancel : (id marketId : String) → Call ω Bool
  price : String → Call ω Decimal
  balances : Call ω Balances
  /-- The part of a buy that the exchange keeps. -/
  buyFee : String → Call ω Decimal
  /-- The part of a sell that the exchange keeps. -/
  sellFee : String → Call ω Decimal
  /-- An exchange without tickers says so. -/
  ticker : String → Call ω Ticker := fun marketId =>
    .fail (.api s!"get_ticker is not supported by {implName} (market {marketId})")

/-- An exchange and how it is set up. -/
structure Adapter (ω : Type) where
  exchange : Exchange ω
  /-- Puts a new instance in place. -/
  fresh : ω → ω
  init : Config.Exchange → Call ω Unit

namespace Exchange

variable {ω σ : Type}

/-- The exchange over a world of which its own is a part. -/
def zoom (slot : Program.Slot ω σ) (x : Exchange σ) : Exchange ω where
  implName := x.implName
  orderBook m := (x.orderBook m).zoom slot
  openOrders m := (x.openOrders m).zoom slot
  place t := (x.place t).zoom slot
  cancel id m := (x.cancel id m).zoom slot
  price m := (x.price m).zoom slot
  balances := x.balances.zoom slot
  buyFee m := (x.buyFee m).zoom slot
  sellFee m := (x.sellFee m).zoom slot
  ticker m := (x.ticker m).zoom slot

end Exchange

/-- The adapter over a world of which its own is a part. -/
def Adapter.zoom {ω σ : Type} (slot : Program.Slot ω σ) (a : Adapter σ) : Adapter ω where
  exchange := a.exchange.zoom slot
  fresh w := slot.set (a.fresh (slot.get w)) w
  init c := (a.init c).zoom slot

end TradingBot
