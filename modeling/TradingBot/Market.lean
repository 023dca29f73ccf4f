import TradingBot.Json.Dialect
import TradingBot.Decimal.Arithmetic
import TradingBot.Timestamp

/-!
# What an exchange tells

**Markets** (`Market`). A pair of currencies that an exchange trades, with the exchange's own
identifier for it and a name to show.

**Open orders** (`OpenOrder`). Our own orders that the exchange still holds. What is filled is the
difference between the quantity that was placed and the quantity still open.

**Order books** (`OrderBook`). The levels of a market, the best price of each side first: the lowest
that anyone sells at, the highest that anyone buys at. A level (`Level`) has a price, a quantity and
their product. The spread is the distance between the two best prices.

**Tickers** (`Ticker`). A market's latest figures. Exchanges differ in what they publish, so only
the last price is certain.

**Balances** (`Balances`). What a wallet holds, by currency: the funds that are free to trade and
the funds that open orders hold.
-/

namespace TradingBot

/-! ## Markets -/

structure Market where
  id : String
  name : String
  /-- The currency that is bought and sold. -/
  base : String
  /-- The currency that prices are given in. -/
  counter : String
deriving DecidableEq, Repr

namespace Market

def pairOf (base counter : String) : String := base ++ "/" ++ counter

def pair (m : Market) : String := pairOf m.base m.counter

def display (m : Market) : String := s!"{m.name} [{m.id}] ({m.pair})"

def fields : List FieldName :=
  [⟨"id", []⟩, ⟨"name", []⟩, ⟨"base_currency", []⟩, ⟨"counter_currency", []⟩]

variable {ν : Type}

def decode (d : Dialect ν) (v : ν) : Option Market := do
  let r ← d.record fields v
  return {
    id := ← r.required "id" d.text
    name := ← r.required "name" d.text
    base := ← r.required "base_currency" d.text
    counter := ← r.required "counter_currency" d.text }

def encode (m : Market) : Json :=
  .obj [("id", .str m.id), ("name", .str m.name), ("base_currency", .str m.base),
    ("counter_currency", .str m.counter)]

end Market

/-! ## Orders -/

inductive Side where
  | buy
  | sell
deriving DecidableEq, Repr

namespace Side

def text : Side → String
  | buy => "BUY"
  | sell => "SELL"

def ofText? (s : String) : Option Side :=
  if s = "BUY" then some buy else if s = "SELL" then some sell else none

def decode {ν : Type} (d : Dialect ν) (v : ν) : Option Side := (d.choice v).bind ofText?

def encode (s : Side) : Json := .str s.text

end Side

structure OpenOrder where
  id : String
  createdAt : Timestamp
  marketId : String
  side : Side
  price : Decimal
  /-- What is still to be filled. -/
  quantity : Decimal
  /-- What the order was placed for. -/
  placedQuantity : Decimal
  total : Decimal
deriving DecidableEq, Repr

namespace OpenOrder

def filledQuantity (o : OpenOrder) : Except Crash Decimal := o.placedQuantity.sub o.quantity

def fields : List FieldName :=
  [⟨"id", []⟩, ⟨"created_at", []⟩, ⟨"market_id", []⟩, ⟨"order_type", []⟩, ⟨"price", []⟩,
    ⟨"quantity", []⟩, ⟨"original_quantity", []⟩, ⟨"total", []⟩]

variable {ν : Type}

def decode (d : Dialect ν) (v : ν) : Option OpenOrder := do
  let r ← d.record fields v
  return {
    id := ← r.required "id" d.text
    createdAt := ← r.required "created_at" fun v => (d.text v).bind Timestamp.parse
    marketId := ← r.required "market_id" d.text
    side := ← r.required "order_type" (Side.decode d)
    price := ← r.required "price" d.decimal
    quantity := ← r.required "quantity" d.decimal
    placedQuantity := ← r.required "original_quantity" d.decimal
    total := ← r.required "total" d.decimal }

def encode (o : OpenOrder) : Json :=
  .obj [("id", .str o.id), ("created_at", .str o.createdAt.render), ("market_id", .str o.marketId),
    ("order_type", o.side.encode), ("price", .ofDecimal o.price),
    ("quantity", .ofDecimal o.quantity), ("original_quantity", .ofDecimal o.placedQuantity),
    ("total", .ofDecimal o.total)]

end OpenOrder

/-! ## Order books -/

structure Level where
  side : Side
  price : Decimal
  quantity : Decimal
  total : Decimal
deriving DecidableEq, Repr

namespace Level

/-- The level whose total is price times quantity. -/
def of (side : Side) (price quantity : Decimal) : Except Crash Level := do
  return { side, price, quantity, total := ← price.mul quantity }

def fields : List FieldName :=
  [⟨"order_type", []⟩, ⟨"price", []⟩, ⟨"quantity", []⟩, ⟨"total", []⟩]

variable {ν : Type}

def decode (d : Dialect ν) (v : ν) : Option Level := do
  let r ← d.record fields v
  return {
    side := ← r.required "order_type" (Side.decode d)
    price := ← r.required "price" d.decimal
    quantity := ← r.required "quantity" d.decimal
    total := ← r.required "total" d.decimal }

def encode (l : Level) : Json :=
  .obj [("order_type", l.side.encode), ("price", .ofDecimal l.price),
    ("quantity", .ofDecimal l.quantity), ("total", .ofDecimal l.total)]

end Level

structure OrderBook where
  marketId : String
  /-- Lowest price first. -/
  sells : List Level := []
  /-- Highest price first. -/
  buys : List Level := []
deriving DecidableEq, Repr

namespace OrderBook

def bestBid (b : OrderBook) : Option Decimal := b.buys.head?.map (·.price)

def bestAsk (b : OrderBook) : Option Decimal := b.sells.head?.map (·.price)

/-- Best ask minus best bid, if both sides have a level. -/
def spread (b : OrderBook) : Except Crash (Option Decimal) :=
  match b.bestAsk, b.bestBid with
  | some ask, some bid => (ask.sub bid).map some
  | _, _ => .ok none

def fields : List FieldName := [⟨"market_id", []⟩, ⟨"sell_orders", []⟩, ⟨"buy_orders", []⟩]

variable {ν : Type}

def decode (d : Dialect ν) (v : ν) : Option OrderBook := do
  let r ← d.record fields v
  return {
    marketId := ← r.required "market_id" d.text
    sells := ← r.required "sell_orders" (d.list (Level.decode d))
    buys := ← r.required "buy_orders" (d.list (Level.decode d)) }

def encode (b : OrderBook) : Json :=
  .obj [("market_id", .str b.marketId), ("sell_orders", .ofList Level.encode b.sells),
    ("buy_orders", .ofList Level.encode b.buys)]

end OrderBook

/-! ## Tickers -/

structure Ticker where
  last : Decimal
  bid : Option Decimal := none
  ask : Option Decimal := none
  low : Option Decimal := none
  high : Option Decimal := none
  opening : Option Decimal := none
  volume : Option Decimal := none
  /-- The average price, weighted by volume. -/
  vwap : Option Decimal := none
  timestamp : Option Timestamp := none
deriving DecidableEq, Repr

namespace Ticker

def fields : List FieldName :=
  [⟨"last", []⟩, ⟨"bid", []⟩, ⟨"ask", []⟩, ⟨"low", []⟩, ⟨"high", []⟩, ⟨"open", []⟩,
    ⟨"volume", []⟩, ⟨"vwap", []⟩, ⟨"timestamp", []⟩]

variable {ν : Type}

def decode (d : Dialect ν) (v : ν) : Option Ticker := do
  let r ← d.record fields v
  let figure (name : String) := r.optional name none (d.nullable d.decimal)
  return {
    last := ← r.required "last" d.decimal
    bid := ← figure "bid"
    ask := ← figure "ask"
    low := ← figure "low"
    high := ← figure "high"
    opening := ← figure "open"
    volume := ← figure "volume"
    vwap := ← figure "vwap"
    timestamp := ← r.optional "timestamp" none
      (d.nullable fun v => (d.text v).bind Timestamp.parse) }

def encode (t : Ticker) : Json :=
  let figure := Json.ofOption Json.ofDecimal
  .obj [("last", .ofDecimal t.last), ("bid", figure t.bid), ("ask", figure t.ask),
    ("low", figure t.low), ("high", figure t.high), ("open", figure t.opening),
    ("volume", figure t.volume), ("vwap", figure t.vwap),
    ("timestamp", .ofOption (fun time => .str time.render) t.timestamp)]

end Ticker

/-! ## Balances -/

structure Balances where
  available : Dict Decimal := {}
  onHold : Dict Decimal := {}
deriving DecidableEq

namespace Balances

/-- The free funds in a currency, if the exchange named it. -/
def availableFor (b : Balances) (currency : String) : Option Decimal := b.available.get? currency

/-- All free funds in one line, by currency. -/
def summary (b : Balances) : String :=
  let entries := b.available.entries.map fun (currency, amount) => currency ++ "=" ++ amount.render
  "\x7b" ++ ", ".intercalate entries ++ "\x7d"

def fields : List FieldName := [⟨"available", []⟩, ⟨"on_hold", []⟩]

variable {ν : Type}

def decode (d : Dialect ν) (v : ν) : Option Balances := do
  let r ← d.record fields v
  return {
    available := ← r.optional "available" {} (d.dict d.decimal)
    onHold := ← r.optional "on_hold" {} (d.dict d.decimal) }

def encode (b : Balances) : Json :=
  .obj [("available", .ofDict .ofDecimal b.available), ("on_hold", .ofDict .ofDecimal b.onHold)]

end Balances

end TradingBot
