import TradingBot.Program
import TradingBot.Http.Client

/-!
# Alerts

**Alerters** (`Alerter`). Whoever delivers an alert, a subject and a body, to where a human will
see it. A delivery may fail, for a reason with a chain of causes. The log (`Alerter.toLog`) cannot.

**Delivery to a webhook** (`Webhook.deliver`). The alert is posted as JSON. When the server cannot
be reached, does not answer in time or owns up to an error of its own, the same alert is posted
again after a delay; any other answer without success is final. When the delays are used up, the
last failure counts.

**Delays** (`Webhook.retryDelays`). Each is half as long again as the one before, as long as all of
them together take no more than a minute.
-/

namespace TradingBot

/-! ## Alerters -/

structure DeliveryFailure where
  summary : String
  /-- What lies behind it, outermost first. -/
  causes : List String := []
deriving DecidableEq, Repr

/-- The summary and all causes in one line. -/
def DeliveryFailure.chain (f : DeliveryFailure) : String := ": ".intercalate (f.summary :: f.causes)

structure Alerter (ω : Type) where
  send : (subject body : String) → Program ω (Except DeliveryFailure Unit)

namespace Alerter

def toLog {ω : Type} : Alerter ω where
  send subject body := do
    Program.tell .error body [("subject", subject)]
    return .ok ()

/-- The alerter over a world of which its own is a part. -/
def zoom {ω σ : Type} (slot : Program.Slot ω σ) (a : Alerter σ) : Alerter ω where
  send subject body := (a.send subject body).zoom slot

end Alerter

/-! ## Webhooks -/

/-- Where alerts are posted, and the bot that they are from. -/
structure Webhook where
  url : String
  botId : String
deriving DecidableEq, Repr

namespace Webhook

/-- Milliseconds that one attempt may take. -/
def attemptTimeout : Nat := 10000

def firstDelay : Nat := 500

/-- Milliseconds that all delays together may take. -/
def delayBudget : Nat := 60000

/-- Delays from one on, each half as long again as the one before, within a budget. -/
def delaysFrom (delay budget : Nat) : List Nat :=
  if delay = 0 ∨ budget < delay then []
  else delay :: delaysFrom (delay + delay / 2) (budget - delay)
termination_by budget
decreasing_by omega

def retryDelays : List Nat := delaysFrom firstDelay delayBudget

inductive Attempt where
  | delivered
  /-- Another attempt may succeed. -/
  | transient (causes : List String)
  | rejected (causes : List String)
deriving DecidableEq, Repr

def Attempt.ofStatus (s : Http.Status) : Attempt :=
  if s.IsServerError then .transient ["Alert webhook returned " ++ s.text]
  else if s.IsSuccess then .delivered
  else .rejected ["Alert webhook rejected alert: " ++ s.text]

def payload (hook : Webhook) (subject body : String) (sentAt : Timestamp) : Json :=
  .obj [("subject", .str subject), ("body", .str body), ("bot_id", .str hook.botId),
    ("sent_at", .str sentAt.render)]

def attempt (hook : Webhook) (payload : Json) : Program Http.Link Attempt := do
  match ← Http.Link.send hook.url (.post payload) attemptTimeout with
  | .error failure =>
    Program.tell .warn "Alert webhook unreachable, retrying" [("error", failure.message)]
    return .transient (failure.message :: failure.causes)
  | .ok response =>
    if response.status.IsServerError then
      Program.tell .warn "Alert webhook server error, retrying" [("status", response.status.text)]
    return .ofStatus response.status

/-- Posts the alert, and again after each delay for as long as the failure may pass. -/
def deliver (hook : Webhook) (payload : Json) :
    List Nat → Program Http.Link (Except DeliveryFailure Unit)
  | [] => do
    match ← hook.attempt payload with
    | .delivered => return .ok ()
    | .transient causes | .rejected causes => return .error (failure causes)
  | delay :: delays => do
    match ← hook.attempt payload with
    | .delivered => return .ok ()
    | .rejected causes => return .error (failure causes)
    | .transient _ =>
      Program.pause delay
      hook.deliver payload delays
where
  failure (causes : List String) : DeliveryFailure :=
    { summary := "Failed to deliver alert to " ++ hook.url, causes }

def alerter (hook : Webhook) : Alerter Http.Link where
  send subject body := do
    let sentAt ← Program.now
    let result ← hook.deliver (hook.payload subject body sentAt) retryDelays
    if result.isOk then Program.tell .info "Alert delivered" [("url", hook.url)]
    return result

end Webhook

/-- The alerter that a configuration asks for: its webhook, or else the log. -/
def Alerter.ofConfig (c : Config.Alerts) (botId : String) : Alerter Http.Link :=
  match c.target with
  | some url => { url, botId : Webhook }.alerter
  | none => .toLog

end TradingBot
