import TradingBot.Engine.Basic

/-!
# The moves of an engine

**Starting** (`Engine.start`). The first start claims the engine; every other one is refused and
tells how far the engine has come.

**Working** (`Engine.work`). One move of the start at work: it loads the configuration,
initialises the adapter and the strategies, and then goes round its loop. Each cycle checks the
watched balance and executes the strategies one after another. A fatal condition raises one alert
and ends the run. A component's program is carried on to its end or to its next wait. While the
start waits, it makes no move.
-/

namespace TradingBot.Engine

variable {ω ς : Type}

def start (e : Engine ω ς) : Engine ω ς :=
  match e.lifecycle with
  | .notStarted =>
    { e with lifecycle := .running, phase := .loading, starts := e.starts ++ [none] }.tell .info
      "Starting trading engine" []
  | current => { e with starts := e.starts ++ [some (.error (.alreadyStarted current))] }

/-- Carries a component's program on. At its end `finish` goes on with its value; until then the
engine stays in the phase of what is left. -/
def carry {α : Type} (e : Engine ω ς) (p : Program ω α) (suspend : Program ω α → Phase ω ς)
    (finish : Engine ω ς → α → Engine ω ς) : Engine ω ς :=
  let turn := p.resume e.time e.world
  let e := { e with world := turn.world, lines := e.lines ++ turn.lines }
  let e := if turn.stop then e.requestStop else e
  match turn.rest with
  | .inl a => finish e a
  | .inr (ms, rest) => { e with phase := suspend rest, wake := e.now + ms }

/-! ## Putting a run together -/

def fail (error : EngineError) (e : Engine ω ς) : Engine ω ς :=
  { e with phase := .leaving (.error error) }.tell .error "Failed to wire trading engine"
    [("error", error.message)]

/-- The start breaks off, and leaves the engine as it is. -/
def breakOff (c : Crash) (e : Engine ω ς) : Engine ω ς := e.conclude (.crash c)

def enterLoop (run : Run ω ς) (e : Engine ω ς) : Engine ω ς :=
  { e with phase := .checking run }.tell .info "Trading engine running"
    [("bot_id", run.settings.botId), ("bot_name", run.settings.botName),
      ("exchange", LogLine.quote run.exchange.implName), ("markets", toString run.markets.length),
      ("trade_cycle_interval", toString run.settings.cycleInterval),
      ("emergency_stop_currency", run.settings.stopCurrency),
      ("emergency_stop_balance", run.settings.stopBalance.amount)]

def marketOf (m : Config.Market) : Market :=
  { id := m.id, name := m.name, base := m.base, counter := m.counter }

/-- Goes on to the next market, or into the loop after the last one. -/
def wireNext (config : Config) (x : Exchange ω) (ready : List (Wired ω ς)) :
    List Config.Market → Engine ω ς → Engine ω ς
  | [], e => e.enterLoop { settings := config.engine, exchange := x, markets := ready }
  | m :: left, e =>
    match config.strategy? m.strategyId with
    | none => e.fail (.unlistedStrategy m.id m.strategyId)
    | some settings =>
      match e.setup.registry.strategy? settings.className with
      | none => e.fail (.unknownStrategy settings.className)
      | some strategy =>
        let market := marketOf m
        let current : Wired ω ς :=
          { market, strategyId := settings.id, strategy, state := strategy.fresh }
        let rest := strategy.init x market settings strategy.fresh
        { e with phase := .wiring config x ready current left rest }.act
          (.initStrategy m.id settings.id)

/-- What a strategy's fault at its initialisation does to the start. -/
def strategyRefused (w : Wired ω ς) (fault : StrategyFault) (e : Engine ω ς) : Engine ω ς :=
  match fault with
  | .failure message => e.fail (.strategyFailed w.strategyId w.market.id message)
  | .unexpected message _ => e.fail (.strategyFailed w.strategyId w.market.id message)
  | .crash c => e.breakOff c

/-- Loads the configuration and takes a new adapter. -/
def load (e : Engine ω ς) : Engine ω ς :=
  let reads := e.setup.source.opened.map fun path =>
    { level := .debug, message := "Reading config file", fields := [("path", path)] : LogLine }
  let e := { e with lines := e.lines ++ reads }
  match e.setup.source.load with
  | .error error => e.fail (.config error)
  | .ok config =>
    match e.setup.registry.adapter? config.exchange.adapter with
    | none => e.fail (.unknownAdapter config.exchange.adapter)
    | some a =>
      let phase := .settingUp config a (a.init config.exchange).run
      { e with world := a.fresh e.world, phase }.act .initExchange

def afterSetUp (config : Config) (a : Adapter ω) (r : Except Fault Unit) (e : Engine ω ς) :
    Engine ω ς :=
  match r with
  | .ok () =>
    (e.tell .info "Exchange adapter initialised"
      [("exchange", config.exchange.name), ("adapter", LogLine.quote a.exchange.implName)]).wireNext
        config a.exchange [] config.enabledMarkets
  | .error (.error error) => e.fail (.adapterFailed config.exchange.adapter error)
  | .error (.crash c) => e.breakOff c

def afterWiring (config : Config) (x : Exchange ω) (ready : List (Wired ω ς))
    (current : Wired ω ς) (left : List Config.Market) (r : Except StrategyFault Unit × ς)
    (e : Engine ω ς) : Engine ω ς :=
  match r with
  | (.ok (), state) =>
    (e.tell .info "Market wired"
      [("market", current.market.display), ("strategy", current.strategyId)]).wireNext
        config x (ready ++ [{ current with state }]) left
  | (.error fault, _) => e.strategyRefused current fault

/-! ## The loop -/

/-- A fatal condition: raises the alert. -/
def raise (f : Fatal) (e : Engine ω ς) : Engine ω ς :=
  ({ e with phase := .alerting (e.setup.alerter.send Fatal.subject f.body) }.tell .error
    "Fatal condition, shutting down trading engine" [("reason", f.body)]).act
      (.alert Fatal.subject f.body)

/-- The latest second that the clock for deadlines can show. -/
def lastSecond : Nat := 9223372036854775807

/-- Begins the pause after a cycle. A deadline that the clock cannot show breaks the start off. -/
def rest (run : Run ω ς) (e : Engine ω ς) : Engine ω ς :=
  let interval := run.settings.cycleInterval.toNat
  if lastSecond < e.setup.clockOrigin + e.now / 1000 + interval then
    e.breakOff (.text "overflow when adding duration to instant")
  else { e with phase := .pausing run (e.now + interval * 1000) }

def completeCycle (run : Run ω ς) (e : Engine ω ς) : Engine ω ς :=
  let e := { e with cycles := e.cycles + 1 }
  (e.tell .debug "Trade cycle complete" [("cycle", toString e.cycles)]).rest run

/-- Executes the next strategy, or ends the cycle after the last one. -/
def dispatch (run : Run ω ς) (finished : List (Wired ω ς)) :
    List (Wired ω ς) → Engine ω ς → Engine ω ς
  | [], e => e.completeCycle { run with markets := finished }
  | w :: left, e =>
    let rest := w.strategy.execute run.exchange w.state
    ({ e with phase := .executing run finished w left rest }.tell .debug "Executing strategy"
      [("market", w.market.id), ("strategy", w.strategyId)]).act (.execute w.market.id)

/-- The top of the loop: leaves it if a stop was requested, and else begins a cycle. -/
def check (run : Run ω ς) (e : Engine ω ς) : Engine ω ς :=
  if e.stopRequested then
    { e with phase := .leaving .ok }.tell .info "Shutdown observed, leaving trade cycle loop" []
  else if run.settings.WatchesBalance then
    { e with phase := .fetching run run.exchange.balances.run }.act .fetchBalances
  else e.dispatch run [] run.markets

def afterFetch (run : Run ω ς) (r : Except Fault Balances) (e : Engine ω ς) : Engine ω ς :=
  match BalanceCheck.judge run.settings.stopCurrency run.settings.stopBalance r with
  | .passed balance =>
    (e.tell .debug "Emergency stop check passed"
      [("currency", run.settings.stopCurrency), ("balance", balance.amount),
        ("threshold", run.settings.stopBalance.amount)]).dispatch run [] run.markets
  | .unavailable detail =>
    (e.tell .warn
      "Network error fetching balances for emergency stop check, will try again next cycle"
      [("error", detail)]).completeCycle run
  | .fatal f => e.raise f

def fatalOf : StrategyFault → Fatal
  | .failure message => .strategy message
  | .unexpected message causes => .unexpected (": ".intercalate (message :: causes))
  | .crash c => .unexpected c.describe

def afterExecute (run : Run ω ς) (finished : List (Wired ω ς)) (current : Wired ω ς)
    (left : List (Wired ω ς)) (r : Except StrategyFault Unit × ς) (e : Engine ω ς) :
    Engine ω ς :=
  match r with
  | (.ok (), state) => e.dispatch run (finished ++ [{ current with state }]) left
  | (.error fault, _) => e.raise (fatalOf fault)

def afterAlert (r : Except DeliveryFailure Unit) (e : Engine ω ς) : Engine ω ς :=
  let e :=
    match r with
    | .ok () => e
    | .error f => e.tell .error "Failed to send critical alert" [("error", f.summary)]
  { e.requestStop with phase := .leaving .ok }

/-- The next tick of a pause, or its end. -/
def keepPausing (run : Run ω ς) (deadline : Nat) (e : Engine ω ς) : Engine ω ς :=
  match Pause.next e.stopRequested e.now deadline with
  | .sleep ms => { e with wake := e.now + ms }
  | .ended => { e with phase := .checking run }
  | .interrupted =>
    { e with phase := .checking run }.tell .warn "Shutdown requested during inter-cycle sleep" []

/-- Stores the last stage and ends the start. -/
def leave (result : StartEnd) (e : Engine ω ς) : Engine ω ς :=
  let e := { e with lifecycle := .shutdown }
  let e :=
    match result with
    | .ok => e.tell .info "Trading engine shut down" [("cycles", toString e.cycles)]
    | _ => e
  e.conclude result

/-! ## Moves -/

/-- Whether the start at work waits for a later time. -/
def isAsleep (e : Engine ω ς) : Bool := e.now < e.wake

/-- One move of the start at work, unless there is none or it waits. -/
def work (e : Engine ω ς) : Engine ω ς :=
  if e.isAsleep then e
  else
    match e.phase with
    | .idle => e
    | .loading => e.load
    | .settingUp config a p =>
      e.carry p (.settingUp config a) fun e r => e.afterSetUp config a r
    | .wiring config x ready current left p =>
      e.carry p (.wiring config x ready current left) fun e r =>
        e.afterWiring config x ready current left r
    | .checking run => e.check run
    | .fetching run p => e.carry p (.fetching run) fun e r => e.afterFetch run r
    | .executing run finished current left p =>
      e.carry p (.executing run finished current left) fun e r =>
        e.afterExecute run finished current left r
    | .alerting p => e.carry p .alerting fun e r => e.afterAlert r
    | .pausing run deadline => e.keepPausing run deadline
    | .leaving result => e.leave result

end TradingBot.Engine
