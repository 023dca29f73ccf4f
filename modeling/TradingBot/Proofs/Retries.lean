import TradingBot.Proofs.OpenOrders
import TradingBot.Proofs.Sessions
import TradingBot.Proofs.Verdicts

/-!
# Setting up the paper exchange again

**Attempts** (`Paper.initialised`). An exchange may be initialised with one configuration after
another. An attempt that succeeds overwrites fees, balances and prices whatever they were
(`Paper.init_snd`). It does not touch the orders, and it sets the feed only if its configuration
names one: a feed that an earlier attempt has set stays, whether or not that attempt failed in the
end (`Paper.feed_initialised`).

**Theorem (`Paper.startsAfresh_iff`).** After any attempts, an exchange behaves like a new one
exactly if it had no orders and no feed is left that its last configuration does not replace. If
there were orders, a list of them tells; if there is a feed, a look at a price while the feed's
server refuses connections.
-/

namespace TradingBot

/-! ## Programs that end at once -/

namespace Program

variable {ω σ α β : Type} {now : Timestamp} {w : ω}

/-- The program comes to its end, with this value, without a wait. -/
def AtOnce (now : Timestamp) (p : Program ω α) (w : ω) (a : α) : Prop :=
  (p.resume now w).rest = .inl a

theorem AtOnce.bind {p : Program ω α} {k : α → Program ω β} {a : α} (h : AtOnce now p w a) :
    ((p >>= k).resume now w).rest = ((k a).resume now (p.resume now w).world).rest := by
  show ((p.bind k).resume now w).rest = _
  unfold AtOnce at h
  induction p generalizing w with
  | done b =>
    cases h
    rfl
  | read next ih => exact ih w h
  | write w' next ih => exact ih h
  | wait ms next ih =>
    cases ms with
    | zero => exact ih h
    | succ ms => cases h
  | clock next ih => exact ih now h
  | requestStop next ih => exact ih h
  | log line next ih => exact ih h

theorem AtOnce.zoom (slot : Slot ω σ) {p : Program σ α} {a : α}
    (h : AtOnce now p (slot.get w) a) : AtOnce now (p.zoom slot) w a := by
  unfold AtOnce at h ⊢
  induction p generalizing w with
  | done b =>
    cases h
    rfl
  | read next ih => exact ih _ h
  | write s next ih => exact ih (by rwa [slot.get_set])
  | wait ms next ih =>
    cases ms with
    | zero => exact ih h
    | succ ms => cases h
  | clock next ih => exact ih now h
  | requestStop next ih => exact ih h
  | log line next ih => exact ih h

theorem AtOnce.bind_error {c : Call ω α} {k : α → Call ω β} {f : Fault}
    (h : AtOnce now c.run w (.error f)) : AtOnce now (c >>= k).run w (.error f) :=
  h.bind (k := fun r => ExceptT.bindCont k r)

end Program

namespace Paper

open Program (AtOnce)

/-! ## Attempts -/

/-- Whether an attempt succeeds does not depend on what the exchange was before. -/
theorem init_fst (c : Config.Exchange) (p p' : Paper) : (init c p).1 = (init c p').1 := by
  obtain ⟨r, fees, available, prices, -, h⟩ := exists_seeding c
  rw [h, h]

theorem init_feed (c : Config.Exchange) (p : Paper) : (init c p).2.feed = feedAfter c p.feed := by
  obtain ⟨r, fees, available, prices, -, h⟩ := exists_seeding c
  rw [h]

theorem init_snd {c : Config.Exchange} (hc : (init c {}).1 = .ok ()) (p : Paper) :
    (init c p).2 =
      { seeded c with feed := feedAfter c p.feed, orders := p.orders, issued := p.issued } := by
  obtain ⟨r, fees, available, prices, hall, h⟩ := exists_seeding c
  rw [seeded, h, h]
  rw [h] at hc
  obtain ⟨hfees, havailable, hprices⟩ := hall hc
  obtain ⟨fees, rfl⟩ := Option.isSome_iff_exists.mp hfees
  obtain ⟨available, rfl⟩ := Option.isSome_iff_exists.mp havailable
  obtain ⟨prices, rfl⟩ := Option.isSome_iff_exists.mp hprices
  rfl

theorem feedAfter_of_init {c : Config.Exchange} (h : (init c {}).1 = .ok ())
    (feed : Option Http.Client) : feedAfter c feed = (feedOf c).or feed := by
  revert h
  unfold init feedAfter
  cases Fees.read c.other with
  | error e => exact nofun
  | ok fees => exact fun _ => rfl

/-- An attempt that puts a feed in place, whether or not it succeeds in the end. -/
def SetsFeed (c : Config.Exchange) : Prop :=
  (∃ fees, Fees.read c.other = .ok fees) ∧ feedOf c ≠ none

theorem feedAfter_eq_none_iff {c : Config.Exchange} {feed : Option Http.Client} :
    feedAfter c feed = none ↔ feed = none ∧ ¬ SetsFeed c := by
  unfold feedAfter SetsFeed
  cases Fees.read c.other with
  | error e => simp
  | ok fees => simp [Option.or_eq_none_iff, and_comm]

/-- The exchange after it was to be initialised. -/
def attempt (now : Timestamp) (w : World) (c : Config.Exchange) : World :=
  ((adapter.init c).run.run now w).2

theorem attempt_eq (now : Timestamp) (w : World) (c : Config.Exchange) :
    attempt now w c = { w with paper := (init c w.paper).2 } := by
  rw [attempt, run_initialise]

/-- The exchange after it was to be initialised with one configuration after another. -/
def initialised (now : Timestamp) (cs : List Config.Exchange) (w : World) : World :=
  cs.foldl (attempt now) w

theorem initialised_cons (now : Timestamp) (c : Config.Exchange) (cs : List Config.Exchange)
    (w : World) : initialised now (c :: cs) w =
      initialised now cs { w with paper := (init c w.paper).2 } := by
  rw [initialised, List.foldl_cons, attempt_eq]
  rfl

theorem initialised_append (now : Timestamp) (cs : List Config.Exchange) (c : Config.Exchange)
    (w : World) : initialised now (cs ++ [c]) w =
      { initialised now cs w with paper := (init c (initialised now cs w).paper).2 } := by
  rw [initialised, List.foldl_append, List.foldl_cons, List.foldl_nil, attempt_eq]
  rfl

theorem link_initialised (now : Timestamp) (cs : List Config.Exchange) (w : World) :
    (initialised now cs w).link = w.link := by
  induction cs generalizing w with
  | nil => rfl
  | cons c cs ih => rw [initialised_cons, ih]

theorem books_initialised (now : Timestamp) (cs : List Config.Exchange) (w : World) :
    (initialised now cs w).books = w.books := by
  induction cs generalizing w with
  | nil => rfl
  | cons c cs ih =>
    rw [initialised_cons, ih]
    exact Desk.books_init c w.paper

/-- **No feed is left** exactly if there was none and no attempt has set one. -/
theorem feed_initialised (now : Timestamp) (cs : List Config.Exchange) (w : World) :
    (initialised now cs w).paper.feed = none ↔
      w.paper.feed = none ∧ ∀ c ∈ cs, ¬ SetsFeed c := by
  induction cs generalizing w with
  | nil => simp [initialised]
  | cons c cs ih =>
    rw [initialised_cons, ih, init_feed, feedAfter_eq_none_iff, List.forall_mem_cons, and_assoc]

theorem paper_initialised {c : Config.Exchange} (h : (init c {}).1 = .ok ()) (now : Timestamp)
    (cs : List Config.Exchange) (w : World) :
    (initialised now (cs ++ [c]) w).paper =
      { seeded c with
        feed := feedAfter c (initialised now cs w).paper.feed
        orders := w.paper.orders
        issued := w.paper.issued } := by
  have hbooks := books_initialised now cs w
  rw [initialised_append]
  dsimp only
  rw [init_snd h]
  exact congrArg₂ (fun orders issued => { seeded c with
    feed := feedAfter c (initialised now cs w).paper.feed, orders, issued })
    (congrArg Prod.fst hbooks) (congrArg Prod.snd hbooks)

/-! ## What tells an exchange from a new one -/

def closed : Http.Link := { reach := .refusing }

theorem send_closed (address : String) (timeout : Nat) (now : Timestamp) :
    ∃ failure, AtOnce now (Http.Link.send address .get timeout) closed (.error failure) := by
  unfold Http.Link.send
  cases Http.Url.parse address with
  | error e => exact ⟨_, rfl⟩
  | ok url =>
    dsimp only
    by_cases hhttp : url.IsHttp
    · rw [if_pos hhttp]
      exact ⟨.unsent url.text .refused, rfl⟩
    · rw [if_neg hhttp]
      exact ⟨_, rfl⟩

theorem get_closed {α : Type} (c : Http.Client) (path : String) (decode : Json → Option α)
    (now : Timestamp) : ∃ failure : Http.TransportFailure,
      AtOnce now (c.get path decode).run closed (.error (.error (failure.classify c.network))) := by
  obtain ⟨failure, h⟩ := send_closed (c.address path) c.timeout now
  refine ⟨failure, ?_⟩
  have htell : AtOnce now (Program.tell .debug "GET" [("url", c.address path)]) closed () := rfl
  unfold AtOnce
  rw [Http.Client.get, ExceptT.run_mk]
  dsimp only
  rw [htell.bind]
  show ((Http.Link.send (c.address path) .get c.timeout >>= _).resume now closed).rest = _
  rw [h.bind]
  rfl

theorem atOnce_look {α : Type} {k : Paper → Call World α} {w : World} {now : Timestamp}
    {r : Except Fault α} : AtOnce now (Call.lift look >>= k).run w r ↔
      AtOnce now (k w.paper).run w r := Iff.rfl

/-- With a feed that cannot be reached, a look at a price fails on the way to it. -/
theorem price_closed {w : World} {feed : Http.Client} (hf : w.paper.feed = some feed)
    (marketId : String) (now : Timestamp) : ∃ failure : Http.TransportFailure,
      AtOnce now (Query.price marketId).call.run { w with link := closed }
        (.error (.error (failure.classify feed.network))) := by
  obtain ⟨failure, h⟩ := get_closed feed (feedPath marketId) decodeLast now
  refine ⟨failure, Program.AtOnce.bind_error ?_⟩
  have hask : AtOnce now ((feed.get (feedPath marketId) decodeLast).zoom linkSlot).run
      { w with link := closed } (.error (.error (failure.classify feed.network))) :=
    Program.AtOnce.zoom linkSlot h
  show AtOnce now (price marketId).run _ _
  rw [price, atOnce_look]
  dsimp only
  rw [hf]
  exact hask.bind_error

theorem price_seeded {w : World} (hf : w.paper.feed = none) (marketId : String) (now : Timestamp) :
    AtOnce now (Query.price marketId).call.run w
      (((w.paper.seededPrice marketId).map .amount).mapError .error) := by
  have hprice : AtOnce now (price marketId).run w
      ((w.paper.seededPrice marketId).mapError .error) := by
    rw [price, atOnce_look]
    rw [hf, atOnce_look]
    cases w.paper.seededPrice marketId <;> rfl
  refine hprice.bind.trans ?_
  cases w.paper.seededPrice marketId <;> rfl

theorem message_ne_unknown (failure : Http.TransportFailure) :
    failure.message ≠ "Unknown market ''" := by
  intro h
  have hhead : failure.message.toList.head? = some 'U' := by
    rw [h]
    decide
  cases failure with
  | notAnAddress e =>
    have hb : "builder error".toList.head? = some 'U' := hhead
    exact absurd hb (by decide)
  | brokenBody =>
    have he : "error decoding response body".toList.head? = some 'U' := hhead
    exact absurd he (by decide)
  | wrongScheme url =>
    have hb : (s!"builder error for url ({url})").toList.head? = some 'U' := hhead
    simp [ToString.toString] at hb
  | unsent url f =>
    have he : (s!"error sending request for url ({url})").toList.head? = some 'U' := hhead
    simp [ToString.toString] at he

/-- What a session does that looks at a price while the feed's server refuses connections. -/
def lookWhileClosed (marketId : String) (now : Timestamp) : List Use :=
  [.act (.relink closed), .act (.ask (.price marketId)), .act (.goOn 0 now)]

theorem calls_lookWhileClosed {w : World} {marketId : String} {now : Timestamp}
    {r : Except Fault Answer}
    (h : AtOnce now (Query.price marketId).call.run { w with link := closed } r) :
    ((Session.start w).after (lookWhileClosed marketId now)).seen.calls = [some (.answered r)] := by
  show [Stage.told? (.ofQuery (.price marketId)
    ((Query.price marketId).call.run.resume now { w with link := closed }).rest)] = _
  rw [h]
  rfl

/-- **A feed shows**: a look at a price fails otherwise than without one. -/
theorem seen_of_feed {w w' : World} (hf : w.paper.feed ≠ none) (hf' : w'.paper.feed = none)
    (now : Timestamp) : ((Session.start w).after (lookWhileClosed "" now)).seen ≠
      ((Session.start w').after (lookWhileClosed "" now)).seen := by
  intro heq
  have hcalls := congrArg Seen.calls heq
  obtain ⟨feed, hfeed⟩ := Option.ne_none_iff_exists'.mp hf
  obtain ⟨failure, hfails⟩ := price_closed hfeed "" now
  have hseeded := price_seeded (w := { w' with link := closed }) hf' "" now
  rw [calls_lookWhileClosed hfails, calls_lookWhileClosed hseeded] at hcalls
  have hresult : .error (.error (failure.classify feed.network)) =
      ((w'.paper.seededPrice "").map Answer.amount).mapError Fault.error := by
    injection hcalls with hcall
    injection hcall with htold
    injection htold
  unfold seededPrice at hresult
  split at hresult
  · cases hresult
  · have hclassified : failure.classify feed.network = .api ("Unknown market '" ++ "" ++ "'") := by
      injection hresult with hfault
      injection hfault
    have hdetail := congrArg ApiError.detail hclassified
    exact message_ne_unknown failure (Http.detail_classify failure _ ▸ hdetail)

/-- **Orders show** in a list of them. -/
theorem seen_of_orders {w w' : World} {o : OpenOrder} {os : List OpenOrder}
    (ho : w.paper.orders = o :: os) (ho' : w'.paper.orders = []) (now : Timestamp) :
    ((Session.start w).after [.act (.list o.marketId now)]).seen ≠
      ((Session.start w').after [.act (.list o.marketId now)]).seen := by
  intro heq
  have hcalls : [some (Told.listed (.ok (w.paper.openOrders o.marketId)))] =
      [some (Told.listed (.ok (w'.paper.openOrders o.marketId)))] := congrArg Seen.calls heq
  have hlists : w.paper.openOrders o.marketId = w'.paper.openOrders o.marketId := by
    injection hcalls with hcall
    injection hcall with htold
    injection htold with hlisted
    injection hlisted
  rw [openOrders, openOrders, ho, ho'] at hlists
  simp at hlists

/-! ## Starting afresh -/

theorem seeded_books (c : Config.Exchange) : (seeded c).books = ([], 0) := Desk.books_init c {}

/-- **After any attempts, failed or not,** an exchange that has then been initialised behaves like a
new one exactly if it had no orders and no feed is left that the last configuration does not
replace. -/
theorem startsAfresh_iff {c : Config.Exchange} {now : Timestamp} {cs : List Config.Exchange}
    {w : World} (hc : ((adapter.init c).run.run now (initialised now cs w)).1 = .ok ()) :
    (∀ uses, ((Session.start (initialised now (cs ++ [c]) w)).after uses).seen =
        ((Session.start (initialised now [c] (adapter.fresh w))).after uses).seen) ↔
      w.paper.orders = [] ∧
        (feedOf c = none → w.paper.feed = none ∧ ∀ d ∈ cs, ¬ SetsFeed d) := by
  have hok : (init c {}).1 = .ok () := by
    rw [run_initialise, init_fst c _ {}] at hc
    cases hi : (init c {}).1 with
    | ok u => rfl
    | error e =>
      rw [hi] at hc
      cases hc
  have hretried := paper_initialised hok now cs w
  have hfresh : (initialised now [c] (adapter.fresh w)).paper = seeded c := by
    rw [initialised_cons]
    rfl
  -- If nobody can tell the two apart, then neither by a list of orders, which tells those left
  -- over, nor by a look at a price, which tells whether there is a feed.
  constructor
  · intro hsame
    constructor
    · cases ho : w.paper.orders with
      | nil => rfl
      | cons o os =>
        have hshow : (initialised now (cs ++ [c]) w).paper.orders = o :: os := by
          rw [hretried, ho]
        have hnone : (initialised now [c] (adapter.fresh w)).paper.orders = [] := by
          rw [hfresh]
          exact congrArg Prod.fst (seeded_books c)
        exact absurd (hsame _) (seen_of_orders hshow hnone now)
    · intro hnone
      rw [← feed_initialised now cs w]
      by_contra hfeed
      refine absurd (hsame _) (seen_of_feed ?_ ?_ now)
      · rw [hretried]
        exact fun hnone' => hfeed (feedAfter_eq_none_iff.mp hnone').1
      · rw [hfresh, feed_of_init hok, hnone]
  -- Conversely the two worlds are alike: all that is left over is the number of orders ever placed,
  -- and no user is told of that.
  · rintro ⟨horders, hfeed⟩
    have hsamefeed : feedAfter c (initialised now cs w).paper.feed = (seeded c).feed := by
      rw [feedAfter_of_init hok, feed_of_init hok]
      cases hf : feedOf c with
      | some feed => rfl
      | none => rw [(feed_initialised now cs w).mpr (hfeed hf), Option.or_none]
    refine seen_after_of_alike ⟨?_, 0, ?_⟩
    · rw [link_initialised, link_initialised]
      rfl
    · have hbooks := seeded_books c
      rw [hretried, hfresh, horders, hsamefeed]
      generalize seeded c = p at hbooks
      obtain ⟨available, prices, orders, fees, feed, issued⟩ := p
      cases hbooks
      rfl

end Paper

namespace Rehearsed

open Paper

deriving instance DecidableEq for Answer
deriving instance DecidableEq for Told

/-- The feed is set before the funds are found to be wrong. -/
def halfFed : Config.Exchange :=
  { name := "Paper", adapter := "paper"
    other := .ofList [(feedKey, "nowhere"), ("balance.BTC", "lots")] }

/-- The fees are found to be wrong before anything is set. -/
def overcharged : Config.Exchange :=
  { name := "Paper", adapter := "paper"
    other := .ofList [(feedKey, "nowhere"), ("buy-fee", "2")] }

def pricedOnly : Config.Exchange :=
  { name := "Paper", adapter := "paper", other := .ofList [("price.btc_usd", "100")] }

theorem startsAfresh_rehearsed :
    ((adapter.init overcharged).run.run onTheHour {}).1 =
        .error (.error (.api "buy-fee must be a fraction in [0, 1), got 2")) ∧
      ∀ uses, ((Session.start (initialised onTheHour ([overcharged] ++ [pricedOnly]) {})).after
          uses).seen =
        ((Session.start (initialised onTheHour [pricedOnly] (adapter.fresh {}))).after uses).seen := by
  have hfees : ∀ fees, Fees.read overcharged.other ≠ .ok fees := by
    have hread : Fees.read overcharged.other =
        .error (.api "buy-fee must be a fraction in [0, 1), got 2") := by decide +kernel
    rw [hread]
    exact nofun
  refine ⟨by decide +kernel, (startsAfresh_iff (by decide +kernel)).mpr ⟨rfl, fun _ => ⟨rfl, ?_⟩⟩⟩
  intro d hd
  cases List.mem_singleton.mp hd
  exact fun h => h.1.elim hfees

/-- A look at a price, without anything happening to the feed. -/
def lookOnce : List Use :=
  [.act (.ask (.price "btc_usd")), .act (.goOn 0 onTheHour)]

/-- **A failed initialisation leaves its feed behind**, and the next one that succeeds does not
remove it: the seeded price is never looked at. -/
theorem paper_keeps_feed :
    ((adapter.init halfFed).run.run onTheHour {}).1 =
        .error (.error (.api "Invalid value 'lots' for balance.BTC")) ∧
      ((adapter.init pricedOnly).run.run onTheHour (initialised onTheHour [halfFed] {})).1 =
        .ok () ∧
      ((Session.start (initialised onTheHour ([halfFed] ++ [pricedOnly]) {})).after
        lookOnce).seen.calls = [some (.answered (.error (.error (.api "builder error"))))] ∧
      ((Session.start (initialised onTheHour [pricedOnly] (adapter.fresh {}))).after
        lookOnce).seen.calls = [some (.answered (.ok (.amount (.ofNat 100))))] ∧
      ¬ ∀ uses, ((Session.start (initialised onTheHour ([halfFed] ++ [pricedOnly]) {})).after
          uses).seen =
        ((Session.start (initialised onTheHour [pricedOnly] (adapter.fresh {}))).after uses).seen := by
  have hkept : ((Session.start (initialised onTheHour ([halfFed] ++ [pricedOnly]) {})).after
      lookOnce).seen.calls = [some (.answered (.error (.error (.api "builder error"))))] := by
    decide +kernel
  have hfresh : ((Session.start (initialised onTheHour [pricedOnly] (adapter.fresh {}))).after
      lookOnce).seen.calls = [some (.answered (.ok (.amount (.ofNat 100))))] := by
    decide +kernel
  refine ⟨by decide +kernel, by decide +kernel, hkept, hfresh, fun hsame => ?_⟩
  have hcalls := congrArg Seen.calls (hsame lookOnce)
  rw [hkept, hfresh] at hcalls
  cases hcalls

end Rehearsed

end TradingBot
