import TradingBot.Decimal.Text
import TradingBot.Dict
import TradingBot.Exchange.Api
import TradingBot.Text
import TradingBot.Market
import TradingBot.Http.Client

/-!
# The paper exchange

**Fees** (`Fees`). The parts of a buy and of a sell that the exchange keeps, where they are
configured: fractions from zero to below one.

**The type** (`Paper`). A simulated exchange for dry runs: seeded balances and prices, fees, and our
own orders. Orders rest until they are withdrawn; nothing is ever filled. With a price feed, prices
come from there and the seeds are not asked.

**Seeding** (`Paper.init`). Settings under `balance.` and `price.` name amounts, others the fees
and the feed. The first setting that cannot be read ends the seeding, and what was seeded before
it stays.

**Order book** (`Paper.bookAround`). Five levels on each side of the price, each a tenth of a
percent of the price away from the one before, with a quantity of one.

**Calls** (`Paper.World`). They work on the exchange itself and the link to its price feed. Each
price comes from one request to the feed, if there is one, and is kept; otherwise it is the seeded
one. An order is placed once its market has a price. A ticker takes its best prices from a book and
its last price from a second look at the price.
-/

namespace TradingBot

/-! ## Fees -/

structure Fees where
  buy : Option Decimal := none
  sell : Option Decimal := none
deriving DecidableEq, Repr

namespace Fees

def buyKey : String := "buy-fee"

def sellKey : String := "sell-fee"

/-- A fee from its setting, which may be written with an exponent. -/
def readOne (settings : Dict String) (key : String) : Except ApiError (Option Decimal) :=
  match settings.get? key with
  | none => .ok none
  | some raw =>
    match Decimal.parse (Text.trim raw) with
    | none => .error (.api s!"Invalid {key} '{raw}' in otherConfig")
    | some fee =>
      if fee < .zero ∨ .one ≤ fee then
        .error (.api s!"{key} must be a fraction in [0, 1), got {fee.render}")
      else .ok (some fee)

/-- The fees that the settings name, buying first. -/
def read (settings : Dict String) : Except ApiError Fees := do
  return { buy := ← readOne settings buyKey, sell := ← readOne settings sellKey }

end Fees

structure Paper where
  available : Dict Decimal := {}
  prices : Dict Decimal := {}
  /-- Our open orders, oldest first. -/
  orders : List OpenOrder := []
  fees : Fees := {}
  /-- Where prices come from, if not from the seeds. -/
  feed : Option Http.Client := none
  /-- How many orders were ever placed. -/
  issued : Nat := 0

namespace Paper

def implName : String := "Paper Exchange (simulated)"

/-- The fee where none is configured. -/
def defaultFee : Decimal := { coeff := 2, scale := 3 }

/-! ## Seeding -/

def balanceKey : String := "balance."

def priceKey : String := "price."

def feedKey : String := "price-feed-url"

/-- The amounts under keys that begin with `head`, by the rest of the key. Like fees, they may be
written with an exponent. -/
def readAmounts (head : String) : List (String × String) → Except ApiError (List (String × Decimal))
  | [] => .ok []
  | (key, raw) :: rest =>
    match Text.behind? head key with
    | none => readAmounts head rest
    | some name =>
      match Decimal.parse (Text.trim raw) with
      | none => .error (.api s!"Invalid value '{raw}' for {head}{name}")
      | some amount => do return (name, amount) :: (← readAmounts head rest)

/-- The amounts that the settings give under keys that begin with `head`. -/
def amounts (settings : Dict String) (head : String) : Except ApiError (Dict Decimal) :=
  (readAmounts head settings.entries).map Dict.ofList

def feedOf (c : Config.Exchange) : Option Http.Client :=
  (c.other.get? feedKey).map fun url => { base := Text.trim url, network := c.networkOrDefault }

/-- Seeds the exchange: fees, feed, balances and prices in this order. -/
def init (c : Config.Exchange) (p : Paper) : Except ApiError Unit × Paper :=
  match Fees.read c.other with
  | .error e => (.error e, p)
  | .ok fees =>
    let p := { p with fees, feed := (feedOf c).or p.feed }
    match amounts c.other balanceKey with
    | .error e => (.error e, p)
    | .ok available =>
      let p := { p with available }
      match amounts c.other priceKey with
      | .error e => (.error e, p)
      | .ok prices => (.ok (), { p with prices })

/-! ## Prices -/

def setPrice (marketId : String) (price : Decimal) (p : Paper) : Paper :=
  { p with prices := p.prices.insert marketId price }

def seededPrice (p : Paper) (marketId : String) : Except ApiError Decimal :=
  match p.prices.get? marketId with
  | some price => .ok price
  | none => .error (.api s!"Unknown market '{marketId}'")

/-- The distance of neighbouring levels as a part of the price. -/
def bookStep : Decimal := { coeff := 1, scale := 3 }

/-- The levels of a side, by their number from the price on. -/
def levelNumbers : List Decimal := [.one, .ofNat 2, .ofNat 3, .ofNat 4, .ofNat 5]

/-- How far the level with a number lies from the price. -/
def levelDistance (price number : Decimal) : Except Crash Decimal := do
  (← number.mul bookStep).mul price

def sellLevel (price number : Decimal) : Except Crash Level := do
  Level.of .sell (← price.add (← levelDistance price number)) .one

def buyLevel (price number : Decimal) : Except Crash Level := do
  Level.of .buy (← price.sub (← levelDistance price number)) .one

def bookAround (marketId : String) (price : Decimal) : Except Crash OrderBook := do
  return {
    marketId
    sells := ← levelNumbers.mapM (sellLevel price)
    buys := ← levelNumbers.mapM (buyLevel price) }

/-! ## Orders -/

/-- Whether an order asks for a positive quantity at a positive price. -/
def Acceptable (t : Ticket) : Prop := .zero < t.quantity ∧ .zero < t.price

instance (t : Ticket) : Decidable (Acceptable t) := inferInstanceAs (Decidable (_ ∧ _))

/-- Orders are numbered in the order in which they are placed. -/
def orderId (number : Nat) : String := s!"#{toString number}"

/-- The order of a ticket, nothing of it filled. -/
def orderOf (t : Ticket) (id : String) (now : Timestamp) : Except Crash OpenOrder := do
  return {
    id
    createdAt := now
    marketId := t.marketId
    side := t.side
    price := t.price
    quantity := t.quantity
    placedQuantity := t.quantity
    total := ← t.price.mul t.quantity }

def push (o : OpenOrder) (p : Paper) : Paper :=
  { p with orders := p.orders ++ [o], issued := p.issued + 1 }

/-- Whether the order has an identifier and belongs to a market. -/
def IsOrder (id marketId : String) (o : OpenOrder) : Prop := o.id = id ∧ o.marketId = marketId

instance (id marketId : String) (o : OpenOrder) : Decidable (IsOrder id marketId o) :=
  inferInstanceAs (Decidable (_ ∧ _))

/-- Withdraws the order with an identifier from a market; tells whether there was one. -/
def cancel (id marketId : String) (p : Paper) : Bool × Paper :=
  let kept := p.orders.filter fun o => ¬ IsOrder id marketId o
  (decide (kept.length < p.orders.length), { p with orders := kept })

def openOrders (p : Paper) (marketId : String) : List OpenOrder :=
  p.orders.filter (·.marketId == marketId)

/-! ## Balances and fees -/

/-- Adds an order's total to what its market holds. -/
def hold (held : Dict Decimal) (o : OpenOrder) : Except Crash (Dict Decimal) := do
  return held.insert o.marketId (← ((held.get? o.marketId).getD .zero).add o.total)

/-- The seeded funds, and by market the funds that open orders hold. -/
def balances (p : Paper) : Except Crash Balances := do
  return { available := p.available, onHold := ← p.orders.foldlM hold {} }

def buyFee (p : Paper) : Decimal := p.fees.buy.getD defaultFee

def sellFee (p : Paper) : Decimal := p.fees.sell.getD defaultFee

end Paper

end TradingBot

namespace TradingBot.Paper

/-! ## Calls -/

structure World where
  paper : Paper := {}
  link : Http.Link := {}

def linkSlot : Program.Slot World Http.Link where
  get w := w.link
  set link w := { w with link }

def paperSlot : Program.Slot World Paper where
  get w := w.paper
  set paper w := { w with paper }

def look : Program World Paper := Program.get.zoom paperSlot

def change (f : Paper → Paper) : Program World Unit := (Program.modify f).zoom paperSlot

/-- The last price as a feed tells it. -/
def decodeLast (v : Json) : Option Decimal := do
  let r ← Json.dialect.record [⟨"last", []⟩] v
  r.required "last" Json.decimal?

def feedPath (marketId : String) : String := "/ticker/" ++ marketId

def price (marketId : String) : Call World Decimal := do
  match (← Call.lift look).feed with
  | some feed =>
    let last ← (feed.get (feedPath marketId) decodeLast).zoom linkSlot
    Call.lift (change (setPrice marketId last))
    return last
  | none => Call.ofExcept ((← Call.lift look).seededPrice marketId)

def orderBook (marketId : String) : Call World OrderBook := do
  Call.compute (bookAround marketId (← price marketId))

def ticker (marketId : String) : Call World Ticker := do
  let book ← orderBook marketId
  let last ← price marketId
  return { last, bid := book.bestBid, ask := book.bestAsk, timestamp := ← Call.lift Program.now }

def place (t : Ticket) : Call World String := do
  if Acceptable t then
    let _ ← price t.marketId
    let id := orderId ((← Call.lift look).issued + 1)
    let order ← Call.compute (orderOf t id (← Call.lift Program.now))
    Call.lift (Program.tell .info "[PAPER] Order placed"
      [("order_id", id), ("market", t.marketId), ("side", t.side.text),
        ("quantity", t.quantity.render), ("price", t.price.render)])
    Call.lift (change (push order))
    return id
  else
    Call.fail (.api <|
      s!"Order quantity and price must be positive, got {t.quantity.render} @ {t.price.render}")

def cancelOrder (id marketId : String) : Call World Bool := do
  let cancelled ← Call.lift ((Program.modifyGet (cancel id marketId)).zoom paperSlot)
  Call.lift (Program.tell .debug "[PAPER] Cancel"
    [("order_id", id), ("market", marketId), ("cancelled", toString cancelled)])
  return cancelled

def exchange : Exchange World where
  implName := implName
  orderBook := orderBook
  openOrders marketId := do return (← Call.lift look).openOrders marketId
  place := place
  cancel := cancelOrder
  price := price
  balances := do Call.compute (← Call.lift look).balances
  buyFee _ := do return (← Call.lift look).buyFee
  sellFee _ := do return (← Call.lift look).sellFee
  ticker := ticker

def initialise (c : Config.Exchange) : Call World Unit := do
  Call.ofExcept (← Call.lift ((Program.modifyGet (init c)).zoom paperSlot))
  let paper ← Call.lift look
  Call.lift (Program.tell .info "Paper exchange initialised"
    [("exchange", c.name), ("currencies", toString paper.available.size),
      ("markets", toString paper.prices.size), ("price_feed", toString paper.feed.isSome)])

def adapter : Adapter World where
  exchange := exchange
  fresh w := { w with paper := {} }
  init := initialise

end TradingBot.Paper
