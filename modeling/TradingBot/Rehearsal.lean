import TradingBot.Engine.Basic

/-!
# Rehearsals

**The type** (`Rehearsal`). Scripted components to rehearse a bot with. What each call to the
exchange answers is written down beforehand (`Cue`), and what is called is noted. When a queue of
cues is used up, prices are one hundred, books are empty, and balances are the standing ones.

**Strategies.** What an execution does is written down by its number over all scripted strategies.
-/

namespace TradingBot

/-- An outcome that shows after so many milliseconds. -/
structure Cue (α : Type) where
  delay : Nat := 0
  outcome : α

/-- What an execution does: after a delay it may request a stop, and then it ends. -/
structure Performance where
  delay : Nat := 0
  stops : Bool := false
  outcome : Except StrategyFault Unit := .ok ()

structure Introduction where
  exchange : String
  market : Market
  settings : Config.Strategy

structure Rehearsal where
  name : String := "Scripted"
  prices : List (Cue (Except Fault Decimal)) := []
  books : List (Cue (Except Fault Unit)) := []
  balances : List (Cue (Except Fault Balances)) := []
  /-- The balances once the queue is used up. -/
  standing : Cue (Except Fault Balances) := { outcome := .ok {} }
  init : Cue (Except Fault Unit) := { outcome := .ok () }
  /-- Executions by their number, counted from one; all others succeed. -/
  performances : List (Nat × Performance) := []
  /-- Markets at which a strategy cannot be initialised. -/
  refusals : Dict StrategyFault := {}
  delivery : Cue (Except DeliveryFailure Unit) := { outcome := .ok () }
  priceCalls : Array String := #[]
  bookCalls : Array String := #[]
  balanceCalls : Nat := 0
  executions : Array String := #[]
  alerts : Array (String × String) := #[]
  introductions : Array Introduction := #[]

namespace Rehearsal

/-- Lets a cue's delay pass and gives its outcome. -/
def play {ω α : Type} (c : Cue α) : Program ω α := do
  Program.pause c.delay
  return c.outcome

/-! ## The exchange -/

/-- The price once the queue is used up. -/
def standingPrice : Decimal := .ofNat 100

def takePrice (marketId : String) (r : Rehearsal) : Cue (Except Fault Decimal) × Rehearsal :=
  (r.prices.headD { outcome := .ok standingPrice },
    { r with prices := r.prices.tail, priceCalls := r.priceCalls.push marketId })

def takeBook (marketId : String) (r : Rehearsal) : Cue (Except Fault Unit) × Rehearsal :=
  (r.books.headD { outcome := .ok () },
    { r with books := r.books.tail, bookCalls := r.bookCalls.push marketId })

def takeBalances (r : Rehearsal) : Cue (Except Fault Balances) × Rehearsal :=
  (r.balances.headD r.standing,
    { r with balances := r.balances.tail, balanceCalls := r.balanceCalls + 1 })

/-- What is not part of a rehearsal. -/
def missing {α : Type} : Call Rehearsal α := .fail (.api "not rehearsed")

def exchange (name : String) : Exchange Rehearsal where
  implName := name
  price marketId := ExceptT.mk do play (← Program.modifyGet (takePrice marketId))
  orderBook marketId := ExceptT.mk do
    let outcome ← play (← Program.modifyGet (takeBook marketId))
    return outcome.map fun () => { marketId : OrderBook }
  balances := ExceptT.mk do play (← Program.modifyGet takeBalances)
  openOrders _ := missing
  place _ := missing
  cancel _ _ := missing
  buyFee _ := missing
  sellFee _ := missing

def adapter (name : String) : Adapter Rehearsal where
  exchange := exchange name
  fresh := id
  init _ := ExceptT.mk do play (← Program.get).init

/-! ## Strategies and alerts -/

/-- Notes an execution and tells what it does. -/
def takePerformance (marketId : String) (r : Rehearsal) : Performance × Rehearsal :=
  let number := r.executions.size + 1
  ((r.performances.lookup number).getD {}, { r with executions := r.executions.push marketId })

def introduce (i : Introduction) (r : Rehearsal) : Except StrategyFault Unit × Rehearsal :=
  (match r.refusals.get? i.market.id with
    | some fault => .error fault
    | none => .ok (),
    { r with introductions := r.introductions.push i })

variable {ω : Type}

/-- The strategy of a rehearsal; an instance remembers its market. -/
def strategy (slot : Program.Slot ω Rehearsal) : Strategy ω String where
  fresh := ""
  init x market settings _ := do
    let i : Introduction := { exchange := x.implName, market, settings }
    return (← (Program.modifyGet (introduce i)).zoom slot, market.id)
  execute _ marketId := do
    let p ← (Program.modifyGet (takePerformance marketId)).zoom slot
    Program.pause p.delay
    if p.stops then Program.stop
    return (p.outcome, marketId)

/-- Notes an alert and tells whether it is delivered. -/
def takeAlert (subject body : String) (r : Rehearsal) :
    Cue (Except DeliveryFailure Unit) × Rehearsal :=
  (r.delivery, { r with alerts := r.alerts.push (subject, body) })

def alerter : Alerter Rehearsal where
  send subject body := do play (← Program.modifyGet (takeAlert subject body))

/-! ## A rehearsal of a whole bot -/

/-- The scripted components beside the paper exchange. -/
structure Stage where
  rehearsal : Rehearsal := {}
  paper : Paper.World := {}

/-- The states of strategies: of the market watch or of a scripted one. -/
abbrev Role := MarketWatch ⊕ String

namespace Stage

def rehearsalSlot : Program.Slot Stage Rehearsal where
  get s := s.rehearsal
  set r s := { s with rehearsal := r }

def paperSlot : Program.Slot Stage Paper.World where
  get s := s.paper
  set p s := { s with paper := p }

def adapterId : String := "scripted"

def strategyId : String := "scripted-strategy"

/-- The bundled components and the scripted ones. -/
def registry (name : String) : Registry Stage Role :=
  Registry.bundled paperSlot (MarketWatch.strategy.within .inl Sum.getLeft?)
    |>.addAdapter adapterId ((Rehearsal.adapter name).zoom rehearsalSlot)
    |>.addStrategy strategyId ((Rehearsal.strategy rehearsalSlot).within .inr Sum.getRight?)

def engine (config : Config) (stage : Stage) : Engine Stage Role where
  setup :=
    { source := config.toSource
      registry := registry stage.rehearsal.name
      alerter := Rehearsal.alerter.zoom rehearsalSlot }
  world := stage

end Stage

end Rehearsal

end TradingBot
