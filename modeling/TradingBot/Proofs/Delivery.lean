import TradingBot.Alert.Webhook
import TradingBot.Proofs.Addresses
import TradingBot.Proofs.Verdicts

/-!
# Delivering an alert

**Running while time passes** (`Program.runOver`). A program is carried to its end, and whenever it
looks at the clock it sees another point in time. At one point in time, this is `Program.run`.

**Replies** (`Http.Reply.Lost`). A reply is lost on an attempt to deliver if it comes too late, not
at all, or with a server error. What an attempt comes to is settled by its reply
(`Webhook.Attempt.ofReply`).

**Steps and runs.** One attempt is one request that takes one reply (`Webhook.runOver_attempt`). The
induction is on the replies that are lost before the first one that is not
(`Webhook.runOver_deliver`): each of them uses up one delay, and leaves the link to the next attempt
with one request more.

**Theorem (`Webhook.delivers_after`).** Whatever the delays are, as long as they last: there is one
request for each lost reply and one for the next, all with the same alert, stamped when it was
sent. It is delivered exactly if that last reply tells success.
-/

namespace TradingBot

/-! ## Running while time passes -/

namespace Program

variable {ω α β : Type}

/-- What a program leaves when it has come to its end. -/
structure Ending (ω α : Type) where
  value : α
  world : ω
  /-- The points in time that are still to be seen. -/
  times : Nat → Timestamp

/-- Carries a program to its end. Each look at the clock sees the next of the points in time. -/
def runOver : Program ω α → ω → (Nat → Timestamp) → Ending ω α
  | done a, w, times => ⟨a, w, times⟩
  | read next, w, times => (next w).runOver w times
  | write w next, _, times => next.runOver w times
  | wait _ next, w, times => next.runOver w times
  | clock next, w, times => (next (times 0)).runOver w fun n => times (n + 1)
  | requestStop next, w, times => next.runOver w times
  | log _ next, w, times => next.runOver w times

/-- At one point in time, a program runs as it does at that time. -/
theorem runOver_const (now : Timestamp) (p : Program ω α) (w : ω) :
    p.runOver w (fun _ => now) = ⟨(p.run now w).1, (p.run now w).2, fun _ => now⟩ := by
  induction p generalizing w with
  | done a => rfl
  | read next ih => exact ih w w
  | write w' next ih => exact ih w'
  | wait ms next ih | requestStop next ih | log line next ih => exact ih w
  | clock next ih => exact ih now w

@[simp] theorem runOver_pure (a : α) (w : ω) (times : Nat → Timestamp) :
    (pure a : Program ω α).runOver w times = ⟨a, w, times⟩ := rfl

@[simp] theorem runOver_bind (p : Program ω α) (k : α → Program ω β) (w : ω)
    (times : Nat → Timestamp) : (p >>= k).runOver w times =
      (k (p.runOver w times).value).runOver (p.runOver w times).world
        (p.runOver w times).times := by
  show (p.bind k).runOver w times = _
  induction p generalizing w times with
  | done a => rfl
  | read next ih => exact ih w w times
  | write w' next ih => exact ih w' times
  | wait ms next ih | requestStop next ih | log line next ih => exact ih w times
  | clock next ih => exact ih _ w _

@[simp] theorem runOver_get (w : ω) (times : Nat → Timestamp) :
    (get : Program ω ω).runOver w times = ⟨w, w, times⟩ := rfl

@[simp] theorem runOver_modifyGet (f : ω → α × ω) (w : ω) (times : Nat → Timestamp) :
    (modifyGet f).runOver w times = ⟨(f w).1, (f w).2, times⟩ := rfl

@[simp] theorem runOver_pause (ms : Nat) (w : ω) (times : Nat → Timestamp) :
    (pause ms).runOver w times = ⟨(), w, times⟩ := rfl

@[simp] theorem runOver_now (w : ω) (times : Nat → Timestamp) :
    now.runOver w times = ⟨times 0, w, fun n => times (n + 1)⟩ := rfl

@[simp] theorem runOver_tell (level : LogLevel) (message : String)
    (fields : List (String × String)) (w : ω) (times : Nat → Timestamp) :
    (tell level message fields).runOver w times = ⟨(), w, times⟩ := rfl

end Program

/-! ## Replies -/

namespace Http

/-- The reply does not settle whether an alert is delivered: it comes too late, not at all, or the
server owns up to an error. -/
def Reply.Lost (reply : Reply) : Prop :=
  Webhook.attemptTimeout < reply.delay ∨ reply.fate = .dropped ∨ reply.status.IsServerError

instance (reply : Reply) : Decidable reply.Lost := inferInstanceAs (Decidable (_ ∨ _))

theorem Link.runOver_receive (url : String) (timeout : Nat) (reply : Reply) (link : Link)
    (times : Nat → Timestamp) : (receive url timeout reply).runOver link times =
      ⟨reply.arrival url timeout, link, times⟩ := by
  unfold receive Reply.arrival
  by_cases hlate : timeout < reply.delay
  · rw [if_pos hlate, if_pos hlate]
    rfl
  · rw [if_neg hlate, if_neg hlate, Program.runOver_bind]
    cases reply.fate <;> rfl

theorem Link.Serves.runOver_send {link : Link} {address : String} {url : Url}
    (h : link.Serves address url) (method : Method) (timeout : Nat) (times : Nat → Timestamp) :
    (send address method timeout).runOver link times =
      ⟨(link.replies.headD exhausted).arrival url.text timeout,
        (link.take { method, path := url.path }).2, times⟩ := by
  unfold send
  rw [h.parse]
  dsimp only
  rw [if_pos h.isHttp, Program.runOver_bind, Program.runOver_get]
  dsimp only
  rw [h.up]
  dsimp only
  rw [Program.runOver_bind, Program.runOver_modifyGet, Link.runOver_receive]
  rfl

end Http

namespace Webhook

open Http

variable {hook : Webhook} {link : Link} {url : Url} {alert : Json} {times : Nat → Timestamp}
  {reply last : Reply} {lost rest : List Reply} {delays : List Nat}

/-! ## One attempt -/

/-- What an attempt comes to that gets this reply. -/
def Attempt.ofReply (url : Url) (reply : Reply) : Attempt :=
  match reply.arrival url.text attemptTimeout with
  | .error failure => .transient (failure.message :: failure.causes)
  | .ok response => .ofStatus response.status

/-- **One attempt is one request**, and it takes one reply. -/
theorem runOver_attempt (h : link.Serves hook.url url) (alert : Json)
    (times : Nat → Timestamp) : (hook.attempt alert).runOver link times =
      ⟨.ofReply url (link.replies.headD Link.exhausted),
        (link.take { method := .post alert, path := url.path }).2, times⟩ := by
  rw [attempt, Program.runOver_bind, h.runOver_send, Attempt.ofReply]
  dsimp only
  generalize (link.replies.headD Link.exhausted).arrival url.text attemptTimeout = arrival
  cases arrival with
  | error failure => rfl
  | ok response =>
    dsimp only
    split <;> rfl

/-- After a lost reply there may be another attempt. -/
theorem Attempt.ofReply_of_lost (h : reply.Lost) (url : Url) :
    ∃ causes, ofReply url reply = .transient causes := by
  unfold ofReply Reply.arrival
  by_cases hlate : attemptTimeout < reply.delay
  · rw [if_pos hlate]
    exact ⟨_, rfl⟩
  · rw [if_neg hlate]
    have hstatus (hf : reply.fate ≠ .dropped) : reply.status.IsServerError :=
      (h.resolve_left hlate).resolve_left hf
    cases hf : reply.fate with
    | dropped => exact ⟨_, rfl⟩
    | whole | truncated => exact ⟨_, if_pos (hstatus (by rw [hf]; decide))⟩

/-- After any other reply there is none: its status settles the matter, whatever has become of its
body. -/
theorem Attempt.ofReply_of_not_lost (h : ¬ reply.Lost) (url : Url) :
    ofReply url reply = if reply.status.IsSuccess then .delivered
      else .rejected ["Alert webhook rejected alert: " ++ reply.status.text] := by
  rw [Reply.Lost, not_or, not_or] at h
  obtain ⟨hlate, hfate, hstatus⟩ := h
  rw [ofReply, Reply.arrival, if_neg hlate]
  cases hf : reply.fate with
  | dropped => exact absurd hf hfate
  | whole | truncated => exact if_neg hstatus

/-! ## All attempts -/

/-- What the alert comes to with a reply that is not lost. -/
def verdict (hook : Webhook) (reply : Reply) : Except DeliveryFailure Unit :=
  if reply.status.IsSuccess then .ok ()
  else .error (deliver.failure hook ["Alert webhook rejected alert: " ++ reply.status.text])

theorem verdict_eq_ok_iff : hook.verdict reply = .ok () ↔ reply.status.IsSuccess := by
  unfold verdict
  by_cases hstatus : reply.status.IsSuccess
  · rw [if_pos hstatus]
    exact iff_of_true rfl hstatus
  · rw [if_neg hstatus]
    exact iff_of_false nofun hstatus

/-- The link after so many attempts with the same alert. -/
def afterAttempts (link : Link) (url : Url) (alert : Json) (k : Nat) : Link :=
  { link with
    replies := link.replies.drop k
    requests := link.requests ++ List.replicate k { method := .post alert, path := url.path } }

theorem afterAttempts_take (link : Link) (url : Url) (alert : Json) (k : Nat) :
    afterAttempts (link.take { method := .post alert, path := url.path }).2 url alert k =
      afterAttempts link url alert (k + 1) := by
  simp only [afterAttempts, Link.take, List.drop_tail, List.append_assoc, List.replicate_succ,
    List.singleton_append]

theorem runOver_deliver_of_not_lost (h : link.Serves hook.url url) (hlast : ¬ last.Lost)
    (hreplies : link.replies = last :: rest) (delays : List Nat) :
    (hook.deliver alert delays).runOver link times =
      ⟨hook.verdict last, afterAttempts link url alert 1, times⟩ := by
  have hattempt := runOver_attempt h alert times
  have hhead : link.replies.headD Link.exhausted = last := by rw [hreplies]; rfl
  rw [hhead, Attempt.ofReply_of_not_lost hlast] at hattempt
  have hlink : (link.take { method := .post alert, path := url.path }).2 =
      afterAttempts link url alert 1 := by rw [afterAttempts, List.drop_one]; rfl
  rw [hlink] at hattempt
  unfold verdict
  by_cases hstatus : last.status.IsSuccess
  · rw [if_pos hstatus] at hattempt ⊢
    cases delays <;> rw [deliver, Program.runOver_bind, hattempt] <;> rfl
  · rw [if_neg hstatus] at hattempt ⊢
    cases delays <;> rw [deliver, Program.runOver_bind, hattempt] <;> rfl

/-- **The alert is posted once for each reply that is lost, and once more.** -/
theorem runOver_deliver (h : link.Serves hook.url url) (hlost : ∀ reply ∈ lost, reply.Lost)
    (hlast : ¬ last.Lost) (hreplies : link.replies = lost ++ last :: rest)
    (hdelays : lost.length ≤ delays.length) :
    (hook.deliver alert delays).runOver link times =
      ⟨hook.verdict last, afterAttempts link url alert (lost.length + 1), times⟩ := by
  induction lost generalizing link delays with
  | nil => exact runOver_deliver_of_not_lost h hlast hreplies delays
  | cons reply lost ih =>
    cases delays with
    | nil => exact absurd hdelays (Nat.not_succ_le_zero _)
    | cons delay delays =>
      have hhead : link.replies.headD Link.exhausted = reply := by rw [hreplies]; rfl
      obtain ⟨causes, hcauses⟩ :=
        Attempt.ofReply_of_lost (hlost reply (List.mem_cons_self ..)) url
      rw [deliver, Program.runOver_bind, runOver_attempt h, hhead, hcauses]
      dsimp only
      rw [Program.runOver_bind, Program.runOver_pause]
      -- The next attempt finds the link with one reply less, and the rest of the delays.
      have hnext : (link.take { method := .post alert, path := url.path }).2.replies =
          lost ++ last :: rest := by
        show link.replies.tail = _
        rw [hreplies]
        rfl
      have hlost' : ∀ reply ∈ lost, reply.Lost := fun r hr => hlost r (List.mem_cons_of_mem _ hr)
      have hserves :
          (link.take { method := .post alert, path := url.path }).2.Serves hook.url url :=
        h.of_reach rfl
      have hrun := ih hserves hlost' hnext (Nat.le_of_succ_le_succ hdelays)
      rw [afterAttempts_take] at hrun
      exact hrun

/-! ## Alerts -/

/-- Sends an alert with these delays between the attempts. -/
def sendOn (hook : Webhook) (delays : List Nat) (subject body : String) :
    Program Link (Except DeliveryFailure Unit) := do
  let sentAt ← Program.now
  let result ← hook.deliver (hook.payload subject body sentAt) delays
  if result.isOk then Program.tell .info "Alert delivered" [("url", hook.url)]
  return result

theorem send_eq_sendOn (hook : Webhook) : hook.alerter.send = hook.sendOn retryDelays := rfl

/-- What comes of an alert when so many replies are lost before another one. -/
structure Delivers (hook : Webhook) (url : Url) (alert : Json) (lost : Nat) (last : Reply)
    (link : Link) (e : Program.Ending Link (Except DeliveryFailure Unit)) : Prop where
  /-- One request for each lost reply and one for the last, all of them equal, and no other. -/
  requests : e.world.requests =
    link.requests ++ List.replicate (lost + 1) { method := .post alert, path := url.path }
  replies : e.world.replies = link.replies.drop (lost + 1)
  delivered : e.value = .ok () ↔ last.status.IsSuccess
  rejected : ¬ last.status.IsSuccess → ∃ failure, e.value = .error failure ∧
    failure.chain =
      s!"Failed to deliver alert to {hook.url}: Alert webhook rejected alert: {last.status.text}"

theorem chain_rejection (hook : Webhook) (s : Status) :
    (deliver.failure hook ["Alert webhook rejected alert: " ++ s.text]).chain =
      s!"Failed to deliver alert to {hook.url}: Alert webhook rejected alert: {s.text}" := by
  have hmark : ": Alert webhook rejected alert: " = ": " ++ "Alert webhook rejected alert: " := rfl
  show "Failed to deliver alert to " ++ hook.url ++ ": " ++
      ("Alert webhook rejected alert: " ++ s.text) =
    "Failed to deliver alert to " ++ hook.url ++ ": Alert webhook rejected alert: " ++ s.text
  rw [hmark]
  simp only [String.append_assoc]

/-- **What comes of an alert.** -/
theorem runOver_sendOn (h : link.Serves hook.url url) (hlost : ∀ reply ∈ lost, reply.Lost)
    (hlast : ¬ last.Lost) (hreplies : link.replies = lost ++ last :: rest)
    (hdelays : lost.length ≤ delays.length) (times : Nat → Timestamp) (subject body : String) :
    ((hook.sendOn delays subject body).runOver link times).value = hook.verdict last ∧
      ((hook.sendOn delays subject body).runOver link times).world =
        afterAttempts link url (hook.payload subject body (times 0)) (lost.length + 1) := by
  rw [sendOn, Program.runOver_bind, Program.runOver_now, Program.runOver_bind,
    runOver_deliver h hlost hlast hreplies hdelays]
  dsimp only
  generalize hook.verdict last = result
  cases result <;> exact ⟨rfl, rfl⟩

end Webhook

/-! ## A rehearsed delivery -/

namespace Rehearsed

open Http

def pager : Webhook := { url := "http://hooks.test/alerts", botId := "bot-1" }

def badGateway : Reply := { status := { code := 502 } }

/-- A success that is cut short. -/
def cutShort : Reply := { status := { code := 204 }, fate := .truncated }

/-- The server loses three alerts in three ways, and then its success is cut short. -/
def shaky : Link where
  replies := [{ badGateway with fate := .dropped }, { badGateway with delay := 20000 },
    badGateway, cutShort]

/-- One second passes from each look at the clock to the next. -/
def ticking (n : Nat) : Timestamp := { seconds := n, nanos := 0 }

end Rehearsed

end TradingBot
