import TradingBot.Proofs.Guarantee
import TradingBot.Proofs.PaperCrashes

/-!
# What the paper exchange asks its feed

**Answers** (`Http.Client.answer`). What comes of a request is settled by the link at the moment
that it is sent: by its address, by whether the server can be reached, and by the next reply.

**Asking** (`Paper.Ask`, `Paper.asks`). A request of the paper exchange and its answer, as an
observer reads them off the log line that announces the request.

**The exchange at work** (`Paper.World.Seeded`). The exchange as its configuration seeds it, but for
the prices that its feed has told.

**Looks** (`Paper.LooksUp`). A look at the price is one request to the feed, or none, and then the
seeded price. The calls of the exchange come to what their looks come to (`Paper.ensures_price`,
`Paper.ensures_orderBook`).
-/

namespace TradingBot

/-! ## Answers -/

namespace Http

/-- What becomes of a reply on its way. -/
def Reply.arrival (reply : Reply) (url : String) (timeout : Nat) :
    Except TransportFailure Response :=
  if timeout < reply.delay then .error (.unsent url .timedOut)
  else
    match reply.fate with
    | .whole => .ok { status := reply.status, body? := some reply.body }
    | .truncated => .ok { status := reply.status, body? := none }
    | .dropped => .error (.unsent url .dropped)

/-- What comes of a request that is sent now. -/
def Link.outcome (link : Link) (address : String) (timeout : Nat) :
    Except TransportFailure Response :=
  match Url.parse address with
  | .error e => .error (.notAnAddress e)
  | .ok url =>
    if url.IsHttp then
      match link.reach with
      | .refusing => .error (.unsent url.text .refused)
      | .down => .error (.unsent url.text .unreachable)
      | .up => (link.replies.headD Link.exhausted).arrival url.text timeout
    else .error (.wrongScheme url.text)

/-- What a client that asks now is told. -/
def Client.answer {α : Type} (c : Client) (address : String) (decode : Json → Option α)
    (link : Link) : Except ApiError α :=
  match link.outcome address c.timeout with
  | .error failure => .error (failure.classify c.network)
  | .ok response => c.interpret decode response

variable {ω τ α : Type} {slot : Program.Slot ω Link} {hear : LogLine → ω → List τ} {I : ω → Prop}
  {t : List τ} {w : ω}

open Program

theorem ensures_receive {Q : List τ → Except TransportFailure Response → ω → Prop} {url : String}
    {timeout : Nat} {reply : Reply} (hw : I w)
    (hQ : ∀ w, I w → Q t (reply.arrival url timeout) w) :
    ((Link.receive url timeout reply).zoom slot).Ensures hear I Q t w := by
  unfold Link.receive
  unfold Reply.arrival at hQ
  by_cases hlate : timeout < reply.delay
  · rw [if_pos hlate] at hQ ⊢
    rw [ensures_zoom_bind, ensures_zoom_pause]
    exact ⟨hw, fun w' hw' => ensures_zoom_pure.mpr (hQ w' hw')⟩
  · rw [if_neg hlate] at hQ ⊢
    rw [ensures_zoom_bind, ensures_zoom_pause]
    refine ⟨hw, fun w' hw' => ?_⟩
    have hQ := hQ w' hw'
    cases hf : reply.fate <;> rw [hf] at hQ <;> exact ensures_zoom_pure.mpr hQ

theorem ensures_send {Q : List τ → Except TransportFailure Response → ω → Prop} {address : String}
    {method : Method} {timeout : Nat}
    (hlink : ∀ request w, I w → I (slot.set ((slot.get w).take request).2 w)) (hw : I w)
    (hQ : ∀ w', I w' → Q t ((slot.get w).outcome address timeout) w') :
    ((Link.send address method timeout).zoom slot).Ensures hear I Q t w := by
  unfold Link.send
  unfold Link.outcome at hQ
  cases hu : Url.parse address with
  | error e =>
    rw [hu] at hQ
    exact ensures_zoom_pure.mpr (hQ w hw)
  | ok url =>
    rw [hu] at hQ
    dsimp only at hQ ⊢
    by_cases hhttp : url.IsHttp
    · rw [if_pos hhttp] at hQ ⊢
      rw [ensures_zoom_bind, ensures_zoom_get]
      cases hr : (slot.get w).reach with
      | refusing | down =>
        rw [hr] at hQ
        exact ensures_zoom_pure.mpr (hQ w hw)
      | up =>
        rw [hr] at hQ
        dsimp only
        rw [ensures_zoom_bind, ensures_zoom_modifyGet]
        exact ensures_receive (hlink _ w hw) hQ
    · rw [if_neg hhttp] at hQ ⊢
      exact ensures_zoom_pure.mpr (hQ w hw)

/-- **Asking comes to the answer** that was settled when the request was announced. -/
theorem Client.ensures_get {Q : List τ → Except Fault α → ω → Prop} {c : Client} {path : String}
    {decode : Json → Option α}
    (hlink : ∀ request w, I w → I (slot.set ((slot.get w).take request).2 w)) (hw : I w)
    (hquiet : ∀ level message fields w, message ≠ "GET" → hear { level, message, fields } w = [])
    (hQ : ∀ w', I w' →
      Q (t ++ hear { level := .debug, message := "GET", fields := [("url", c.address path)] } w)
        ((c.answer (c.address path) decode (slot.get w)).mapError .error) w') :
    ((c.get path decode).zoom slot).run.Ensures hear I Q t w := by
  rw [Call.run_zoom, Client.get, ExceptT.run_mk]
  dsimp only
  rw [ensures_zoom_bind, ensures_zoom_tell, ensures_zoom_bind]
  refine ensures_send hlink hw fun w' hw' => ?_
  have hQ := hQ w' hw'
  unfold Client.answer at hQ
  generalize (slot.get w).outcome (c.address path) c.timeout = outcome at hQ ⊢
  cases outcome with
  | error failure => exact ensures_zoom_pure.mpr hQ
  | ok response =>
    dsimp only at hQ ⊢
    cases hi : c.interpret decode response with
    | ok a =>
      rw [hi] at hQ
      exact ensures_zoom_pure.mpr hQ
    | error e =>
      rw [hi] at hQ
      dsimp only
      -- A warning may be logged on the way, which is no request.
      split
      · rw [ensures_zoom_bind, ensures_zoom_tell, hquiet .warn _ _ _ (by decide), List.append_nil]
        exact ensures_zoom_pure.mpr hQ
      · exact ensures_zoom_pure.mpr hQ

end Http

/-! ## The exchange at work -/

namespace Paper

open Program (Ensures)

/-- A request to the feed, and its answer. -/
structure Ask where
  address : String
  answer : Except ApiError Decimal
deriving DecidableEq

/-- The request that a log line announces, if it does. -/
def asks (line : LogLine) (w : World) : List Ask :=
  if line.message = "GET" then
    match w.paper.feed, line.fields with
    | some feed, [(_, address)] => [⟨address, feed.answer address decodeLast w.link⟩]
    | _, _ => []
  else []

theorem asks_of_ne (level : LogLevel) (message : String) (fields : List (String × String))
    (w : World) (h : message ≠ "GET") : asks { level, message, fields } w = [] := if_neg h

theorem asks_of_get {w : World} {feed : Http.Client} (hf : w.paper.feed = some feed)
    (address : String) :
    asks { level := .debug, message := "GET", fields := [("url", address)] } w =
      [⟨address, feed.answer address decodeLast w.link⟩] := by
  rw [asks, if_pos rfl, hf]

def seeded (c : Config.Exchange) : Paper := (init c {}).2

theorem of_init_eq_ok {c : Config.Exchange} {p : Paper} (h : (init c p).1 = .ok ()) :
    ∃ fees available prices, amounts c.other balanceKey = .ok available ∧
      (init c p).2 = { p with fees, feed := (feedOf c).or p.feed, available, prices } := by
  revert h
  unfold init
  cases Fees.read c.other with
  | error e => exact nofun
  | ok fees =>
    dsimp only
    cases amounts c.other balanceKey with
    | error e => exact nofun
    | ok available =>
      dsimp only
      cases amounts c.other priceKey with
      | error e => exact nofun
      | ok prices => exact fun _ => ⟨fees, available, prices, rfl, rfl⟩

theorem feed_of_init {c : Config.Exchange} (h : (init c {}).1 = .ok ()) :
    (seeded c).feed = feedOf c := by
  obtain ⟨fees, available, prices, -, hpaper⟩ := of_init_eq_ok h
  rw [seeded, hpaper]
  exact Option.or_none

theorem amounts_of_init {c : Config.Exchange} (h : (init c {}).1 = .ok ()) :
    amounts c.other balanceKey = .ok (seeded c).available := by
  obtain ⟨fees, available, prices, havailable, hpaper⟩ := of_init_eq_ok h
  rw [seeded, hpaper]
  exact havailable

/-- The seeding went well, and the exchange is still as it was seeded but for prices that its feed
has told. -/
structure World.Seeded (c : Config.Exchange) (w : World) : Prop where
  init : (init c {}).1 = .ok ()
  paper : ∃ prices, w.paper = { seeded c with prices } ∧
    (feedOf c = none → prices = (seeded c).prices)

variable {c : Config.Exchange} {w : World} {t : List Ask}

theorem World.Seeded.feed (h : w.Seeded c) : w.paper.feed = feedOf c := by
  obtain ⟨prices, hp, -⟩ := h.paper
  rw [hp]
  exact feed_of_init h.init

theorem World.Seeded.setPrice (h : w.Seeded c) (hf : feedOf c ≠ none) (marketId : String)
    (price : Decimal) :
    World.Seeded c (paperSlot.set (w.paper.setPrice marketId price) w) := by
  obtain ⟨prices, hp, -⟩ := h.paper
  refine ⟨h.init, prices.insert marketId price, ?_, fun hn => absurd hn hf⟩
  show w.paper.setPrice marketId price = _
  rw [hp]
  rfl

theorem World.Seeded.seededPrice (h : w.Seeded c) (hf : feedOf c = none) (marketId : String) :
    w.paper.seededPrice marketId = (seeded c).seededPrice marketId := by
  obtain ⟨prices, hp, hprices⟩ := h.paper
  rw [hp, Paper.seededPrice, Paper.seededPrice, hprices hf]

/-- What a look at the price of a market comes to, and what is asked for it. -/
def LooksUp (c : Config.Exchange) (marketId : String) (asked : List Ask)
    (r : Except ApiError Decimal) : Prop :=
  match feedOf c with
  | some feed => asked = [⟨feed.address (feedPath marketId), r⟩]
  | none => asked = [] ∧ r = (seeded c).seededPrice marketId

theorem LooksUp.of_feed {marketId : String} {asked : List Ask} {r : Except ApiError Decimal}
    {feed : Http.Client} (h : LooksUp c marketId asked r) (hf : feedOf c = some feed) :
    asked = [⟨feed.address (feedPath marketId), r⟩] := by
  rwa [LooksUp, hf] at h

theorem LooksUp.of_seeded {marketId : String} {asked : List Ask} {r : Except ApiError Decimal}
    (h : LooksUp c marketId asked r) (hf : feedOf c = none) :
    (seeded c).seededPrice marketId = r := by
  rw [LooksUp, hf] at h
  exact h.2.symm

theorem seededPrice_ne_network {p : Paper} {marketId detail : String} :
    p.seededPrice marketId ≠ .error (.network detail) := by
  unfold seededPrice
  split <;> nofun

/-- What the order book of a market comes to after a look at the price. -/
def bookOf (marketId : String) : Except ApiError Decimal → Except Fault OrderBook
  | .ok price => (bookAround marketId price).mapError .crash
  | .error e => .error (.error e)

/-- A call that comes to what it makes of one look. -/
def AfterLook {α : Type} (c : Config.Exchange) (marketId : String) (t : List Ask)
    (f : Except ApiError Decimal → α) (t' : List Ask) (r : α) (w : World) : Prop :=
  w.Seeded c ∧ ∃ asked look, LooksUp c marketId asked look ∧ t' = t ++ asked ∧ r = f look

theorem ensures_look {α : Type} {I : World → Prop} {Q : List Ask → Except Fault α → World → Prop}
    {k : Paper → Call World α} : (Call.lift look >>= k).run.Ensures asks I Q t w ↔
      (k w.paper).run.Ensures asks I Q t w := by
  rw [Call.ensures_bind, Call.ensures_lift, look, Program.ensures_zoom_get]
  rfl

theorem ensures_change {α : Type} {I : World → Prop} {Q : List Ask → Except Fault α → World → Prop}
    {f : Paper → Paper} {a : α} : (do Call.lift (change f); return a : Call World α).run.Ensures
      asks I Q t w ↔ Q t (.ok a) (paperSlot.set (f w.paper) w) := by
  rw [Call.ensures_bind, Call.ensures_lift, change, Program.modify, Program.ensures_zoom_modifyGet]
  exact Call.ensures_pure

theorem ensures_price (hw : w.Seeded c) (marketId : String) :
    (price marketId).run.Ensures asks (World.Seeded c)
      (AfterLook c marketId t fun look => look.mapError .error) t w := by
  rw [price, ensures_look, hw.feed]
  cases hf : feedOf c with
  | none =>
    dsimp only
    rw [ensures_look, Call.ensures_ofExcept]
    -- Without a feed nothing is asked.
    have hlook : LooksUp c marketId [] ((seeded c).seededPrice marketId) := by
      rw [LooksUp, hf]
      exact ⟨rfl, rfl⟩
    rw [hw.seededPrice hf]
    exact ⟨hw, [], _, hlook, by simp, rfl⟩
  | some feed =>
    dsimp only
    rw [Call.ensures_bind]
    refine Http.Client.ensures_get (fun _ _ h => ⟨h.init, h.paper⟩) hw asks_of_ne fun w' hw' => ?_
    have hlink : linkSlot.get w = w.link := rfl
    rw [asks_of_get (hw.feed.trans hf), hlink]
    generalize feed.answer _ decodeLast w.link = r
    have hlook : LooksUp c marketId [⟨feed.address (feedPath marketId), r⟩] r := by
      rw [LooksUp, hf]
    cases r with
    | error e => exact ⟨hw', _, _, hlook, rfl, rfl⟩
    | ok last => exact ensures_change.mpr ⟨hw'.setPrice (by simp [hf]) _ _, _, _, hlook, rfl, rfl⟩

theorem ensures_orderBook (hw : w.Seeded c) (marketId : String) :
    (orderBook marketId).run.Ensures asks (World.Seeded c)
      (AfterLook c marketId t (bookOf marketId)) t w := by
  rw [orderBook, Call.ensures_bind]
  refine (ensures_price hw marketId).mono fun t' r w' hr => ?_
  obtain ⟨hw', asked, look, hlook, rfl, rfl⟩ := hr
  cases look with
  | error e => exact ⟨hw', asked, _, hlook, rfl, rfl⟩
  | ok price => exact Call.ensures_compute.mpr ⟨hw', asked, _, hlook, rfl, rfl⟩

/-! ## Balances and seeding -/

theorem seeded_orders (c : Config.Exchange) : (seeded c).orders = [] :=
  congrArg Prod.fst (Desk.books_init c {})

/-- **Without orders, the balances are the seeded ones** at all times. -/
theorem ensures_balances (hw : w.Seeded c) :
    exchange.balances.run.Ensures asks (World.Seeded c)
      (fun _ r w => w.Seeded c ∧ r = .ok { available := (seeded c).available }) t w := by
  show (Call.lift look >>= fun paper => Call.compute paper.balances).run.Ensures _ _ _ _ _
  rw [ensures_look, Call.ensures_compute]
  refine ⟨hw, ?_⟩
  obtain ⟨prices, hp, -⟩ := hw.paper
  rw [hp, balances]
  simp only [seeded_orders]
  rfl

/-- **A new exchange is seeded by its initialisation**, if that goes well. -/
theorem ensures_initialise (c : Config.Exchange) (hw : w.paper = {}) :
    (initialise c).run.Ensures asks (fun w => w.paper = {})
      (fun _ r w => r = .ok () → w.Seeded c) t w := by
  rw [initialise, Call.ensures_bind, Call.ensures_lift, Program.ensures_zoom_modifyGet]
  have hget : paperSlot.get w = {} := hw
  rw [hget]
  dsimp only
  rw [Call.ensures_bind, Call.ensures_ofExcept]
  cases hi : (init c {}).1 with
  | error e => exact nofun
  | ok u =>
    show ((Call.lift look >>= fun p => _).run).Ensures _ _ _ _ _
    rw [ensures_look, Call.ensures_lift, Program.ensures_tell]
    exact fun _ => ⟨hi, _, rfl, fun _ => rfl⟩

end Paper

end TradingBot
