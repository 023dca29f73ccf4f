import TradingBot.Decimal.Text
import TradingBot.Market
import TradingBot.Exchange.Api
import TradingBot.Config.Basic
import TradingBot.Alert.Webhook
import TradingBot.Registry

/-!
# The engine

**Fatal conditions** (`Fatal`). What ends a run: the watched balance is too low or was not reported,
a strategy or the exchange failed for good, or something broke off. Each condition has its own
opening words in the alert (`Fatal.body`). Amounts are shown with at most eight places.

**The watched balance** (`BalanceCheck.judge`). Before each cycle the free funds in one currency
must not be below the threshold. Amounts compare by value. A network error leaves the check open,
and the cycle is skipped; all else that goes wrong is fatal.

**Failed starts** (`EngineError`). Why a start was refused or the parts of a run could not be put
together. A call of start ends well, with an error, or with a crash (`StartEnd`).

**The pause between cycles** (`Pause.nextIn`). A pause is slept through in ticks of at most a
second. Before each tick it has ended if a stop was requested or its deadline has come. The decision
is the same in every unit of time. The engine takes it in milliseconds (`Pause.next`).

**The parts** (`Engine.Setup`). Where the configuration comes from, the components it can name, and
whoever delivers alerts.

**The type** (`Engine`). The stage of its life, whether a stop was requested, the cycles
completed, the time, and the phase that the one start at work is in. A phase that waits for a
component holds what is left of the component's program. The engine notes the calls that it makes
(`Engine.Action`), the log lines, and for each call of start how it ended.
-/

namespace TradingBot

/-! ## Fatal conditions -/

inductive Fatal where
  | emergencyStop (currency : String) (balance threshold : Decimal)
  /-- The watched currency is not among the balances reported. -/
  | missingBalance (currency : String) (reported : String)
  | strategy (details : String)
  | adapter (details : String)
  | unexpected (details : String)
deriving DecidableEq, Repr

namespace Fatal

/-- The subject of every alert about a fatal condition. -/
def subject : String := "CRITICAL Alert message from BX-bot"

def body : Fatal → String
  | emergencyStop currency balance threshold =>
    s!"EMERGENCY STOP triggered! - Current Emergency Stop Currency [{currency}] wallet balance " ++
      s!"[{balance.amount}] on exchange is lower than configured Emergency Stop balance " ++
      s!"[{threshold.amount}]"
  | missingBalance currency reported =>
    "Emergency stop check: Failed to get current Emergency Stop Currency balance as " ++
      s!"'{currency}' key into Balances map returned null. Balances returned: {reported}"
  | strategy details => "A FATAL error has occurred in Trading Strategy! Details: " ++ details
  | adapter details => "A FATAL error has occurred in Exchange Adapter! Details: " ++ details
  | unexpected details =>
    "An unexpected FATAL error has occurred in Exchange Adapter or Trading Strategy! Details: " ++
      details

end Fatal

/-! ## The watched balance -/

inductive BalanceCheck where
  | passed (balance : Decimal)
  /-- The balances could not be fetched this time. -/
  | unavailable (detail : String)
  | fatal (f : Fatal)
deriving DecidableEq, Repr

namespace BalanceCheck

def compare (currency : String) (threshold : Decimal) (b : Balances) : BalanceCheck :=
  match b.availableFor currency with
  | none => .fatal (.missingBalance currency b.summary)
  | some balance =>
    if balance < threshold then .fatal (.emergencyStop currency balance threshold)
    else .passed balance

/-- What the answer of the exchange means. -/
def judge (currency : String) (threshold : Decimal) : Except Fault Balances → BalanceCheck
  | .ok b => compare currency threshold b
  | .error (.error (.network detail)) => .unavailable detail
  | .error (.error (.api detail)) => .fatal (.adapter (ApiError.api detail).message)
  | .error (.crash c) => .fatal (.unexpected c.describe)

theorem of_judge_passed {currency : String} {threshold balance : Decimal}
    {r : Except Fault Balances} (h : judge currency threshold r = passed balance) :
    ∃ b, r = .ok b ∧ b.availableFor currency = some balance ∧ threshold ≤ balance := by
  match r with
  | .ok b =>
    simp only [judge, compare] at h
    split at h
    · cases h
    · next amount ha =>
      split at h
      · cases h
      · next hlt =>
        cases h
        exact ⟨b, rfl, ha, Decimal.not_lt.mp hlt⟩
  | .error (.error (.network _)) | .error (.error (.api _)) | .error (.crash _) => cases h

theorem of_judge_unavailable {currency detail : String} {threshold : Decimal}
    {r : Except Fault Balances} (h : judge currency threshold r = unavailable detail) :
    r = .error (.error (.network detail)) := by
  match r with
  | .ok b =>
    simp only [judge, compare] at h
    split at h
    · cases h
    · split at h <;> cases h
  | .error (.error (.network _)) => cases h; rfl
  | .error (.error (.api _)) | .error (.crash _) => cases h

end BalanceCheck

/-! ## Starts and their ends -/

/-- The stages of an engine's life. It only moves forward. -/
inductive Lifecycle where
  | notStarted
  | running
  | shutdown
deriving DecidableEq, Repr

inductive EngineError where
  /-- The engine was started before, and this is how far it has come. -/
  | alreadyStarted (current : Lifecycle)
  | config (e : Config.Error)
  | unknownAdapter (id : String)
  | unknownStrategy (className : String)
  | adapterFailed (id : String) (e : ApiError)
  /-- A market names a strategy that is not listed. -/
  | unlistedStrategy (marketId strategyId : String)
  | strategyFailed (strategyId marketId : String) (message : String)
deriving DecidableEq, Repr

namespace EngineError

def message : EngineError → String
  | alreadyStarted .running => "invalid engine state: engine is already running"
  | alreadyStarted _ =>
    "invalid engine state: engine has already been shut down and cannot be restarted"
  | config e => e.message
  | unknownAdapter id => s!"no exchange adapter registered as '{id}'"
  | unknownStrategy className => s!"no trading strategy registered as '{className}'"
  | adapterFailed id e =>
    s!"wiring failed: exchange adapter '{id}' failed to initialise: {e.message}"
  | unlistedStrategy marketId strategyId =>
    s!"wiring failed: market '{marketId}' references unknown tradingStrategyId '{strategyId}'"
  | strategyFailed strategyId marketId message =>
    s!"wiring failed: strategy '{strategyId}' failed to initialise for market " ++
      s!"'{marketId}': {message}"

/-- The texts of what lies behind the error, outermost first. -/
def causes : EngineError → List String
  | config e => e.causes
  | _ => []

end EngineError

inductive StartEnd where
  | ok
  | error (e : EngineError)
  | crash (c : Crash)
deriving DecidableEq, Repr

/-! ## Pauses -/

/-- What to do next in a pause. -/
inductive Pause where
  /-- A stop was requested. -/
  | interrupted
  /-- The deadline has come. -/
  | ended
  | sleep (length : Nat)
deriving DecidableEq, Repr

namespace Pause

variable {longest : Nat} {stopRequested : Bool} {now deadline length : Nat}

/-- What to do next if the longest tick is so long. -/
def nextIn (longest : Nat) (stopRequested : Bool) (now deadline : Nat) : Pause :=
  if stopRequested then interrupted
  else if deadline ≤ now then ended
  else sleep (min longest (deadline - now))

/-- The longest tick, in milliseconds. -/
def tick : Nat := 1000

def next (stopRequested : Bool) (now deadline : Nat) : Pause :=
  nextIn tick stopRequested now deadline

theorem nextIn_eq_interrupted_iff :
    nextIn longest stopRequested now deadline = interrupted ↔ stopRequested = true := by
  unfold nextIn
  split
  · next hs => exact iff_of_true rfl hs
  · next hs => split <;> exact iff_of_false nofun hs

theorem nextIn_eq_ended_iff : nextIn longest stopRequested now deadline = ended ↔
    stopRequested = false ∧ deadline ≤ now := by
  unfold nextIn
  split
  · next hs => simp [hs]
  · next hs =>
    have hs : stopRequested = false := by simpa using hs
    split
    · next hd => exact iff_of_true rfl ⟨hs, hd⟩
    · next hd => exact iff_of_false nofun fun h => hd h.2

theorem nextIn_eq_sleep_iff : nextIn longest stopRequested now deadline = sleep length ↔
    stopRequested = false ∧ now < deadline ∧ length = min longest (deadline - now) := by
  unfold nextIn
  split
  · next hs => simp [hs]
  · next hs =>
    have hs : stopRequested = false := by simpa using hs
    split
    · next hd => exact iff_of_false nofun fun h => absurd hd (Nat.not_le.mpr h.2.1)
    · next hd =>
      rw [sleep.injEq, eq_comm]
      exact ⟨fun h => ⟨hs, Nat.not_le.mp hd, h⟩, fun h => h.2.2⟩

theorem of_next_sleep (h : next stopRequested now deadline = sleep length) :
    stopRequested = false ∧ now < deadline ∧ length = min tick (deadline - now) :=
  nextIn_eq_sleep_iff.mp h

theorem of_next_ended (h : next stopRequested now deadline = ended) : deadline ≤ now :=
  (nextIn_eq_ended_iff.mp h).2

theorem of_next_interrupted (h : next stopRequested now deadline = interrupted) :
    stopRequested = true :=
  nextIn_eq_interrupted_iff.mp h

end Pause

/-! ## The engine and its parts -/

/-- An enabled market and the instance of a strategy that trades on it. -/
structure Wired (ω ς : Type) where
  market : Market
  strategyId : String
  strategy : Strategy ω ς
  state : ς

/-- What a run works with once it is put together. -/
structure Run (ω ς : Type) where
  settings : Config.Engine
  exchange : Exchange ω
  /-- In the order of the configuration. -/
  markets : List (Wired ω ς)

namespace Engine

structure Setup (ω ς : Type) where
  source : Config.Source
  registry : Registry ω ς
  alerter : Alerter ω
  /-- The point in time at which the engine's own time begins. -/
  epoch : Timestamp := { seconds := 0, nanos := 0 }
  /-- The second that the clock for deadlines shows when the engine's own time begins. -/
  clockOrigin : Nat := 1

inductive Action where
  | initExchange
  | initStrategy (marketId strategyId : String)
  | fetchBalances
  | execute (marketId : String)
  | alert (subject body : String)
deriving DecidableEq, Repr

/-- How far the start at work has come. -/
inductive Phase (ω ς : Type) where
  | idle
  | loading
  | settingUp (config : Config) (adapter : Adapter ω) (rest : Program ω (Except Fault Unit))
  /-- A strategy is being initialised; `left` are the markets after it. -/
  | wiring (config : Config) (exchange : Exchange ω) (ready : List (Wired ω ς))
      (current : Wired ω ς) (left : List Config.Market)
      (rest : Program ω (Except StrategyFault Unit × ς))
  /-- At the top of the loop. -/
  | checking (run : Run ω ς)
  | fetching (run : Run ω ς) (rest : Program ω (Except Fault Balances))
  /-- A strategy is being executed, after `finished` and before `left`. -/
  | executing (run : Run ω ς) (finished : List (Wired ω ς)) (current : Wired ω ς)
      (left : List (Wired ω ς)) (rest : Program ω (Except StrategyFault Unit × ς))
  | alerting (rest : Program ω (Except DeliveryFailure Unit))
  | pausing (run : Run ω ς) (deadline : Nat)
  /-- All is done but to store the last stage. -/
  | leaving (result : StartEnd)

end Engine

structure Engine (ω ς : Type) where
  setup : Engine.Setup ω ς
  world : ω
  lifecycle : Lifecycle := .notStarted
  stopRequested : Bool := false
  /-- Cycles that ended without a fatal condition. -/
  cycles : Nat := 0
  /-- Milliseconds since the engine's own time began. -/
  now : Nat := 0
  phase : Engine.Phase ω ς := .idle
  /-- When the start at work goes on. -/
  wake : Nat := 0
  /-- How each call of start ended, if it has. -/
  starts : List (Option StartEnd) := []
  actions : Array Engine.Action := #[]
  lines : Array LogLine := #[]

namespace Engine

variable {ω ς : Type}

def isIdle (e : Engine ω ς) : Bool :=
  match e.phase with
  | .idle => true
  | _ => false

theorem isIdle_iff {e : Engine ω ς} : e.isIdle = true ↔ e.phase = .idle := by
  unfold isIdle
  cases e.phase <;> simp

def time (e : Engine ω ς) : Timestamp :=
  let nanos := e.setup.epoch.nanos + e.now % 1000 * 1000000
  { seconds := e.setup.epoch.seconds + e.now / 1000 + nanos / Timestamp.nanosPerSecond
    nanos := nanos % Timestamp.nanosPerSecond }

def tell (level : LogLevel) (message : String) (fields : List (String × String))
    (e : Engine ω ς) : Engine ω ς :=
  { e with lines := e.lines.push { level, message, fields } }

def act (a : Action) (e : Engine ω ς) : Engine ω ς := { e with actions := e.actions.push a }

/-- Asks the engine to stop at the next chance. Asking again changes nothing. -/
def requestStop (e : Engine ω ς) : Engine ω ς :=
  if e.stopRequested then e
  else { e with stopRequested := true }.tell .info "Shutdown requested" []

def conclude (result : StartEnd) (e : Engine ω ς) : Engine ω ς :=
  { e with
    phase := .idle
    starts := e.starts.map fun r => r.or (some result) }

end Engine

end TradingBot
