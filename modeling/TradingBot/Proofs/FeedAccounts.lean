import TradingBot.Proofs.Addresses
import TradingBot.Proofs.Sessions
import TradingBot.Proofs.Tickers

/-!
# What a paper exchange with a feed asks, call by call

**Reading replies** (`Http.Client.reads`). What a client makes of a reply to a request of its own.

**Fetching** (`Paper.Fetched`). Some requests in a row about one market: each answer is read off the
reply to its own request, and what is learnt from the answers is kept. Fetching once more goes on
from there (`Paper.Fetched.append`).

**Errands** (`Paper.Errand`). A call of the exchange from beginning to end. `Errand.Uses` says how
many answers it takes and what it makes of them: one for a price, a book or an order, two for a
ticker unless the first is an error or its book overflows, and none for anything else. A bad answer
is the call's own error.

**While others act** (`Paper.Heard`). Others may ask between two requests of a call, and the replies
are then theirs. What a call uses is still what its own requests were answered
(`Paper.Query.ComesTo`).

**Theorem (`Paper.Errand.accounts_after`).** Whatever errands were run before, the next one fetches
the answers that it uses, and no others.
-/

namespace TradingBot

/-! ## Reading replies -/

namespace Http

variable {α : Type} {c : Client} {decode : Json → Option α} {link : Link} {address : String}
  {url : Url} {reply : Reply}

/-- What a client makes of a reply to its request. -/
def Client.reads (c : Client) (decode : Json → Option α) (url : Url) (reply : Reply) :
    Except ApiError α :=
  match reply.arrival url.text c.timeout with
  | .error failure => .error (failure.classify c.network)
  | .ok response => c.interpret decode response

/-- A whole reply is read as a value if it tells success and its text decodes. -/
theorem Client.interpret_whole_eq_ok_iff {a : α} (hwhole : reply.fate = .whole) :
    c.interpret decode ⟨reply.status, some reply.body⟩ = .ok a ↔
      reply.status.IsSuccess ∧ (Json.parse reply.text).bind decode = some a := by
  rw [interpret, Reply.text, hwhole]
  dsimp only [Option.map_some]
  by_cases hstatus : reply.status.IsSuccess
  · rw [if_pos hstatus]
    cases (Json.parse (Text.decodeLossy reply.body)).bind decode <;> simp [hstatus]
  · simp [hstatus]

/-- **A reply is read as a value** exactly if it is there in time and in full, tells success, and
its text decodes. -/
theorem Client.reads_eq_ok_iff {a : α} : c.reads decode url reply = .ok a ↔
    reply.delay ≤ c.timeout ∧ reply.fate = .whole ∧ reply.status.IsSuccess ∧
      (Json.parse reply.text).bind decode = some a := by
  rw [reads, Reply.arrival]
  by_cases hlate : c.timeout < reply.delay
  · have hnot : ¬ reply.delay ≤ c.timeout := Nat.not_le.mpr hlate
    simp [hlate, hnot]
  · have hintime : reply.delay ≤ c.timeout := Nat.not_lt.mp hlate
    rw [if_neg hlate]
    cases hfate : reply.fate with
    | dropped => simp
    | truncated =>
      dsimp only
      rw [interpret]
      dsimp only [Option.map_none]
      split <;> simp
    | whole => simp [interpret_whole_eq_ok_iff hfate, hintime]

theorem Link.Serves.answer (h : link.Serves address url) (c : Client)
    (decode : Json → Option α) :
    c.answer address decode link = c.reads decode url (link.replies.headD exhausted) := by
  have hreach : link.Reaches address url (link.replies.headD exhausted) :=
    ⟨h.parse, h.isHttp, h.up, rfl⟩
  rw [Client.answer, hreach.outcome]
  rfl

theorem Link.Serves.asked (h : link.Serves address url) :
    link.asked address = (link.take { method := .get, path := url.path }).2 := by
  rw [Link.asked, h.parse]
  dsimp only
  rw [if_pos h.isHttp, h.up]

/-- A value is told by a server that can be reached. -/
theorem Client.exists_serves_of_answer {a : α} (h : c.answer address decode link = .ok a) :
    ∃ url, link.Serves address url := by
  rw [answer, Link.outcome] at h
  cases hparse : Url.parse address with
  | error e =>
    rw [hparse] at h
    cases h
  | ok url =>
    rw [hparse] at h
    dsimp only at h
    by_cases hhttp : url.IsHttp
    · cases hup : link.reach with
      | up => exact ⟨url, hparse, hhttp, hup⟩
      | refusing | down =>
        rw [if_pos hhttp, hup] at h
        cases h
    · rw [if_neg hhttp] at h
      cases h

/-- **A client is told a value** exactly if its request gets through to a reply that reads so. -/
theorem Client.answer_eq_ok_iff {a : α} : c.answer address decode link = .ok a ↔
    ∃ url reply, link.Reaches address url reply ∧ reply.delay ≤ c.timeout ∧ reply.fate = .whole ∧
      reply.status.IsSuccess ∧ (Json.parse reply.text).bind decode = some a := by
  constructor
  · intro h
    obtain ⟨url, hserves⟩ := exists_serves_of_answer h
    rw [hserves.answer, reads_eq_ok_iff] at h
    exact ⟨url, _, ⟨hserves.parse, hserves.isHttp, hserves.up, rfl⟩, h⟩
  · rintro ⟨url, reply, hreach, hreply⟩
    have hserves : link.Serves address url := ⟨hreach.parse, hreach.isHttp, hreach.up⟩
    rw [hserves.answer, ← hreach.reply]
    exact reads_eq_ok_iff.mpr hreply

end Http

namespace Paper

variable {feed : Http.Client} {base url : Http.Url} {marketId : String} {now : Timestamp}
  {w w' w'' : World} {answer : Except ApiError Decimal}
  {answers answers' : List (Except ApiError Decimal)}

/-! ## Fetching -/

/-- The exchange has a feed, and its base address is one of a server that can be reached. -/
structure World.Live (feed : Http.Client) (base : Http.Url) (w : World) : Prop where
  hasFeed : w.paper.feed = some feed
  serves : w.link.Serves (feed.address "/") base

theorem World.Live.market (h : w.Live feed base) (marketId : String) :
    ∃ path, w.link.Serves (feed.address (feedPath marketId)) { base with path } := by
  have haddress : feed.address (feedPath marketId) =
      Http.Client.withoutSlashes feed.base ++ "/" ++ ("ticker/" ++ marketId) := by
    have hpath : "/ticker/" = "/" ++ "ticker/" := rfl
    rw [Http.Client.address, feedPath, hpath]
    simp only [String.append_assoc]
  rw [haddress]
  exact Http.Link.Serves.under h.serves _

/-- The known prices after one more answer about a market. -/
def learn (marketId : String) (prices : Dict Decimal) : Except ApiError Decimal → Dict Decimal
  | .ok price => prices.insert marketId price
  | .error _ => prices

/-- So many requests about a market in a row, and what they were answered. -/
structure Fetched (feed : Http.Client) (url : Http.Url) (marketId : String)
    (answers : List (Except ApiError Decimal)) (w w' : World) : Prop where
  /-- Each answer is read off the reply to its own request. -/
  own : answers = (List.range answers.length).map fun i =>
    feed.reads decodeLast url (w.link.replies.getD i Http.Link.exhausted)
  link : w'.link = { w.link with
    replies := w.link.replies.drop answers.length
    requests := w.link.requests ++
      List.replicate answers.length { method := .get, path := url.path } }
  prices : w'.paper.prices = answers.foldl (learn marketId) w.paper.prices

theorem Fetched.append (h : Fetched feed url marketId answers w w')
    (h' : Fetched feed url marketId answers' w' w'') :
    Fetched feed url marketId (answers ++ answers') w w'' := by
  constructor
  · have hown := h'.own
    rw [h.link] at hown
    have hdrop (i : ℕ) : (w.link.replies.drop answers.length).getD i Http.Link.exhausted =
        w.link.replies.getD (answers.length + i) Http.Link.exhausted := by
      rw [List.getD_eq_getElem?_getD, List.getD_eq_getElem?_getD, List.getElem?_drop]
    simp only [hdrop] at hown
    rw [List.length_append, List.range_add, List.map_append, ← h.own, List.map_map]
    exact congrArg (answers ++ ·) hown
  · rw [h'.link, h.link, List.drop_drop, List.append_assoc, ← List.replicate_add,
      List.length_append]
  · rw [h'.prices, h.prices, List.foldl_append]

/-- **A look at the price** is one request. -/
theorem World.Live.fetched_price (h : w.Live feed base)
    (hurl : w.link.Serves (feed.address (feedPath marketId)) url) (now : Timestamp) :
    ∃ answer w', (price marketId).run.run now w = (answer.mapError .error, w') ∧
      Fetched feed url marketId [answer] w w' ∧ w'.Live feed base ∧
      w'.link.Serves (feed.address (feedPath marketId)) url := by
  have hlink : w.link.asked (feed.address (feedPath marketId)) =
      (w.link.take { method := .get, path := url.path }).2 := hurl.asked
  refine ⟨_, _, run_price_of_feed h.hasFeed, ⟨?_, ?_, ?_⟩, ⟨?_, ?_⟩, ?_⟩
  · show [w.told feed marketId] = [_]
    rw [World.told, hurl.answer]
    cases w.link.replies <;> rfl
  · dsimp only
    rw [hlink, Http.Link.take, List.length_singleton, List.drop_one]
    rfl
  · dsimp only
    cases w.told feed marketId <;> rfl
  · dsimp only
    cases w.told feed marketId <;> exact h.hasFeed
  · exact h.serves.of_reach (by rw [hlink]; rfl)
  · exact hurl.of_reach (by rw [hlink]; rfl)

theorem run_orderBook_of (h : (price marketId).run.run now w = (answer.mapError .error, w')) :
    (orderBook marketId).run.run now w = (bookOf marketId answer, w') := by
  rw [orderBook, Call.run_bind, h]
  cases answer with
  | error e => rfl
  | ok price =>
    show (Call.compute (bookAround marketId price) : Call World OrderBook).run.run now w' = _
    rw [Call.run_compute]
    rfl

theorem run_answering {α : Type} (c : Call World α) (k : α → Answer) (now : Timestamp) (w : World) :
    (do return k (← c) : Call World Answer).run.run now w =
      ((c.run.run now w).1.map k, (c.run.run now w).2) := by
  rw [Call.run_bind]
  generalize c.run.run now w = result
  obtain ⟨r, w'⟩ := result
  cases r <;> rfl

theorem run_ticker_of_book {b : OrderBook}
    (h : (orderBook marketId).run.run now w = (.ok b, w'))
    (h' : (price marketId).run.run now w' = (answer.mapError .error, w'')) :
    (ticker marketId).run.run now w =
      ((answer.map (tickerOf now b)).mapError .error, w'') := by
  rw [ticker, Call.run_bind, h]
  dsimp only
  rw [Call.run_bind, h']
  cases answer <;> rfl

theorem run_ticker_of_error {f : Fault}
    (h : (orderBook marketId).run.run now w = (.error f, w')) :
    (ticker marketId).run.run now w = (.error f, w') := by
  rw [ticker, Call.run_bind, h]

/-! ## Orders -/

theorem run_place_of_refused {t : Ticket} (ht : ¬ Acceptable t) (now : Timestamp) (w : World) :
    (place t).run.run now w = (.error (.error (refusal t)), w) := by
  rw [place_eq, if_neg ht]
  rfl

theorem run_place_of_error {t : Ticket} {f : Fault} (ht : Acceptable t)
    (h : (price t.marketId).run.run now w = (.error f, w')) :
    (place t).run.run now w = (.error f, w') := by
  rw [place_eq, if_pos ht, Call.run_bind, h]

/-- With a price, the order is entered under the next number. -/
theorem run_place_of_price {t : Ticket} {price : Decimal} (ht : Acceptable t)
    (h : (Paper.price t.marketId).run.run now w = (.ok price, w')) :
    (place t).run.run now w = (enter (orderId (w.paper.issued + 1)) t).run.run now w' := by
  have hbooks := (leaves_price apart_books t.marketId w).run now
  have hissued : w'.paper.issued = w.paper.issued := by
    rw [h] at hbooks
    exact congrArg Prod.snd hbooks
  rw [place_eq, if_pos ht, Call.run_bind, h, ← hissued]
  exact run_look _

/-! ## Errands -/

/-- A call of the exchange that is carried to its end. -/
inductive Errand where
  | query (q : Query)
  | place (t : Ticket)
  | cancel (id marketId : String)
  | list (marketId : String)

/-- What the call is told, and the world after it. -/
def Errand.run (now : Timestamp) (w : World) : Errand → Told × World
  | .query q => (.answered (q.call.run.run now w).1, (q.call.run.run now w).2)
  | .place t =>
    (.placed ((exchange.place t).run.run now w).1, ((exchange.place t).run.run now w).2)
  | .cancel id m =>
    (.cancelled ((exchange.cancel id m).run.run now w).1, ((exchange.cancel id m).run.run now w).2)
  | .list m =>
    (.listed ((exchange.openOrders m).run.run now w).1, ((exchange.openOrders m).run.run now w).2)

def Query.market? : Query → Option String
  | .price m | .orderBook m | .ticker m => some m
  | .balances | .buyFee _ | .sellFee _ | .setPrice _ _ => none

def Errand.market? : Errand → Option String
  | .query q => q.market?
  | .place t => if Acceptable t then some t.marketId else none
  | .cancel _ _ | .list _ => none

/-- The answers that a query uses, and what it makes of them. -/
inductive Query.Uses (now : Timestamp) :
    Query → List (Except ApiError Decimal) → Except Fault Answer → Prop
  | price (m : String) (answer : Except ApiError Decimal) :
      Uses now (.price m) [answer] ((answer.map .amount).mapError .error)
  | orderBook (m : String) (answer : Except ApiError Decimal) :
      Uses now (.orderBook m) [answer] ((bookOf m answer).map .orderBook)
  | tickerFails (m : String) (e : ApiError) :
      Uses now (.ticker m) [.error e] (.error (.error e))
  | tickerOverflows {m : String} {price : Decimal} {c : Crash} : bookAround m price = .error c →
      Uses now (.ticker m) [.ok price] (.error (.crash c))
  | ticker {m : String} {price : Decimal} {b : OrderBook} (answer : Except ApiError Decimal) :
      bookAround m price = .ok b → Uses now (.ticker m) [.ok price, answer]
        ((answer.map fun last => .ticker (tickerOf now b last)).mapError .error)
  | quiet {q : Query} (r : Except Fault Answer) : q.market? = none → Uses now q [] r

/-- The answers that an errand uses, and what it makes of them. -/
inductive Errand.Uses (now : Timestamp) (id : String) :
    Errand → List (Except ApiError Decimal) → Told → Prop
  | query {q : Query} {answers : List (Except ApiError Decimal)} {r : Except Fault Answer} :
      q.Uses now answers r → Uses now id (.query q) answers (.answered r)
  /-- Any price will do. -/
  | placed {t : Ticket} {o : OpenOrder} (price : Decimal) : Acceptable t →
      orderOf t id now = .ok o → Uses now id (.place t) [.ok price] (.placed (.ok id))
  | overflows {t : Ticket} {c : Crash} (price : Decimal) : Acceptable t →
      orderOf t id now = .error c →
      Uses now id (.place t) [.ok price] (.placed (.error (.crash c)))
  | fails {t : Ticket} (e : ApiError) : Acceptable t →
      Uses now id (.place t) [.error e] (.placed (.error (.error e)))
  | refused {t : Ticket} : ¬ Acceptable t →
      Uses now id (.place t) [] (.placed (.error (.error (refusal t))))
  | cancelled (id' m : String) (r : Except Fault Bool) :
      Uses now id (.cancel id' m) [] (.cancelled r)
  | listed (m : String) (r : Except Fault (List OpenOrder)) : Uses now id (.list m) [] (.listed r)

/-- What an errand asks the feed, and what it makes of the answers. -/
structure Errand.Accounts (feed : Http.Client) (base : Http.Url) (now : Timestamp) (e : Errand)
    (w : World) (answers : List (Except ApiError Decimal)) : Prop where
  uses : e.Uses now (orderId (w.paper.issued + 1)) answers (e.run now w).1
  /-- They are fetched from under the base. -/
  fetched : ∀ m, e.market? = some m → ∃ path,
    w.link.Serves (feed.address (feedPath m)) { base with path } ∧
      Fetched feed { base with path } m answers w (e.run now w).2
  quiet : e.market? = none → (e.run now w).2.link = w.link
  live : (e.run now w).2.Live feed base

/-- A query that looks at no price sends nothing and leaves the feed. -/
theorem Query.run_quiet {q : Query} (hq : q.market? = none) (now : Timestamp) (w : World) :
    (q.call.run.run now w).2.link = w.link ∧
      (q.call.run.run now w).2.paper.feed = w.paper.feed := by
  cases q with
  | price m | orderBook m | ticker m => cases hq
  | balances =>
    have hcall : ((Query.balances).call.run.run now w).2 = w := by
      show ((do return Answer.balances (← exchange.balances) :
        Call World Answer).run.run now w).2 = w
      rw [run_answering]
      show ((Call.lift look >>= fun p => Call.compute p.balances).run.run now w).2 = w
      rw [run_look, Call.run_compute]
    rw [hcall]
    exact ⟨rfl, rfl⟩
  | buyFee m | sellFee m | setPrice m amount => exact ⟨rfl, rfl⟩

/-- A ticker fetches the price for its book, and then its last price. -/
theorem fetched_ticker (h : w.Live feed base)
    (hurl : w.link.Serves (feed.address (feedPath marketId)) url) (now : Timestamp) :
    ∃ answers, (Query.ticker marketId).Uses now answers
        (((ticker marketId).run.run now w).1.map .ticker) ∧
      Fetched feed url marketId answers w ((ticker marketId).run.run now w).2 ∧
      ((ticker marketId).run.run now w).2.Live feed base := by
  obtain ⟨answer, w', hrun, hfetched, hlive, hurl'⟩ := h.fetched_price hurl now
  have hbook := run_orderBook_of hrun
  cases answer with
  | error e =>
    rw [run_ticker_of_error hbook]
    exact ⟨_, .tickerFails marketId e, hfetched, hlive⟩
  | ok price =>
    cases hb : bookAround marketId price with
    | error c =>
      rw [bookOf, hb] at hbook
      rw [run_ticker_of_error hbook]
      exact ⟨_, .tickerOverflows hb, hfetched, hlive⟩
    | ok b =>
      rw [bookOf, hb] at hbook
      -- The second request: the link has gone on to its next reply.
      obtain ⟨last, w'', hlast, hfetched', hlive', -⟩ := hlive.fetched_price hurl' now
      rw [run_ticker_of_book hbook hlast]
      refine ⟨[.ok price, last], ?_, hfetched.append hfetched', hlive'⟩
      have huses : Query.Uses now _ _ _ := .ticker last hb
      cases last <;> exact huses

/-- **A query fetches the answers that it uses.** -/
theorem Query.fetched {q : Query} (h : w.Live feed base)
    (hurl : w.link.Serves (feed.address (feedPath marketId)) url) (hq : q.market? = some marketId)
    (now : Timestamp) : ∃ answers, q.Uses now answers (q.call.run.run now w).1 ∧
      Fetched feed url marketId answers w (q.call.run.run now w).2 ∧
      (q.call.run.run now w).2.Live feed base := by
  obtain ⟨answer, w', hrun, hfetched, hlive, hurl'⟩ := h.fetched_price hurl now
  cases q with
  | balances | buyFee m | sellFee m | setPrice m amount => cases hq
  | price m =>
    cases hq
    have hcall : (Query.price marketId).call.run.run now w = _ :=
      run_answering (Paper.price marketId) .amount now w
    rw [hcall, hrun]
    refine ⟨[answer], ?_, hfetched, hlive⟩
    have huses : Query.Uses now _ _ _ := .price marketId answer
    cases answer <;> exact huses
  | orderBook m =>
    cases hq
    have hcall : (Query.orderBook marketId).call.run.run now w = _ :=
      run_answering (Paper.orderBook marketId) .orderBook now w
    rw [hcall, run_orderBook_of hrun]
    exact ⟨[answer], .orderBook marketId answer, hfetched, hlive⟩
  -- The one query that asks twice.
  | ticker m =>
    cases hq
    have hcall : (Query.ticker marketId).call.run.run now w = _ :=
      run_answering (Paper.ticker marketId) .ticker now w
    rw [hcall]
    exact fetched_ticker h hurl now

/-- **An order takes one answer**, and any price will do. -/
theorem fetched_place {t : Ticket} (ht : Acceptable t) (h : w.Live feed base)
    (hurl : w.link.Serves (feed.address (feedPath t.marketId)) url) (now : Timestamp) :
    ∃ answers, (Errand.place t).Uses now (orderId (w.paper.issued + 1)) answers
        (.placed ((place t).run.run now w).1) ∧
      Fetched feed url t.marketId answers w ((place t).run.run now w).2 ∧
      ((place t).run.run now w).2.Live feed base := by
  obtain ⟨answer, w', hrun, hfetched, hlive, -⟩ := h.fetched_price hurl now
  refine ⟨[answer], ?_⟩
  cases answer with
  | error e =>
    rw [run_place_of_error ht hrun]
    exact ⟨.fails e ht, hfetched, hlive⟩
  | ok price =>
    rw [run_place_of_price ht hrun, run_enter]
    cases ho : orderOf t (orderId (w.paper.issued + 1)) now with
    | error c => exact ⟨.overflows price ht ho, hfetched, hlive⟩
    | ok o =>
      exact ⟨.placed price ht ho, ⟨hfetched.own, hfetched.link, hfetched.prices⟩,
        ⟨hlive.hasFeed, hlive.serves⟩⟩

/-- **An errand fetches the answers that it uses**, and no others. -/
theorem Errand.accounts (h : w.Live feed base) (e : Errand) (now : Timestamp) :
    ∃ answers, e.Accounts feed base now w answers := by
  -- An errand that looks at no price leaves the link and the feed.
  have hquiet (hlink : (e.run now w).2.link = w.link)
      (hfeed : (e.run now w).2.paper.feed = w.paper.feed) : (e.run now w).2.Live feed base :=
    ⟨hfeed.trans h.hasFeed, h.serves.of_reach (by rw [hlink])⟩
  cases e with
  | query q =>
    cases hq : q.market? with
    | none =>
      obtain ⟨hlink, hfeed⟩ := q.run_quiet hq now w
      refine ⟨[], .query (.quiet _ hq), fun m hm => ?_, fun _ => hlink, hquiet hlink hfeed⟩
      cases hq.symm.trans hm
    | some marketId =>
      obtain ⟨path, hurl⟩ := h.market marketId
      obtain ⟨answers, huses, hfetched, hlive⟩ := q.fetched h hurl hq now
      refine ⟨answers, .query huses, fun m hm => ?_, fun hnone => ?_, hlive⟩
      · cases hq.symm.trans hm
        exact ⟨path, hurl, hfetched⟩
      · cases hq.symm.trans hnone
  | place t =>
    by_cases ht : Acceptable t
    · obtain ⟨path, hurl⟩ := h.market t.marketId
      obtain ⟨answers, huses, hfetched, hlive⟩ := fetched_place ht h hurl now
      refine ⟨answers, huses, fun m hm => ?_, fun hnone => ?_, hlive⟩
      · rw [market?, if_pos ht] at hm
        cases hm
        exact ⟨path, hurl, hfetched⟩
      · rw [market?, if_pos ht] at hnone
        cases hnone
    · have hrun : (exchange.place t).run.run now w = (.error (.error (refusal t)), w) :=
        run_place_of_refused ht now w
      have hsame : (Errand.run now w (.place t)).2 = w := by rw [run, hrun]
      have huses : (Errand.place t).Uses now (orderId (w.paper.issued + 1)) []
          (Errand.run now w (.place t)).1 := by
        rw [run, hrun]
        exact .refused ht
      refine ⟨[], huses, fun m hm => ?_, fun _ => congrArg World.link hsame,
        hquiet (congrArg World.link hsame) (congrArg (·.paper.feed) hsame)⟩
      rw [market?, if_neg ht] at hm
      cases hm
  | cancel id m => exact ⟨[], .cancelled id m _, nofun, fun _ => rfl, hquiet rfl rfl⟩
  | list m => exact ⟨[], .listed m _, nofun, fun _ => rfl, hquiet rfl rfl⟩

/-! ## Errands one after the other -/

/-- The world after some errands, each run at its own point in time. -/
def World.afterErrands (w : World) (es : List (Errand × Timestamp)) : World :=
  es.foldl (fun w e => (e.1.run e.2 w).2) w

theorem World.Live.afterErrands (h : w.Live feed base) (es : List (Errand × Timestamp)) :
    (w.afterErrands es).Live feed base := by
  induction es generalizing w with
  | nil => exact h
  | cons e es ih =>
    obtain ⟨answers, haccounts⟩ := e.1.accounts h e.2
    exact ih haccounts.live

/-- **Whatever was run before**, an errand fetches the answers that it uses, and no others. -/
theorem Errand.accounts_after (h : w.Live feed base) (es : List (Errand × Timestamp)) (e : Errand)
    (now : Timestamp) : ∃ answers, e.Accounts feed base now (w.afterErrands es) answers :=
  e.accounts (h.afterErrands es) now

/-! ## While others act -/

open Program (Ensures)

/-- The feed is in place, and these requests about a market have been announced. -/
def Heard (feed : Http.Client) (marketId : String) (t : List Ask)
    (answers : List (Except ApiError Decimal)) (t' : List Ask) (w : World) : Prop :=
  w.paper.feed = some feed ∧
    t' = t ++ answers.map fun answer => ⟨feed.address (feedPath marketId), answer⟩

variable {t t' : List Ask}

theorem Heard.append (h : Heard feed marketId t answers t' w) {t'' : List Ask}
    (h' : Heard feed marketId t' answers' t'' w') :
    Heard feed marketId t (answers ++ answers') t'' w' :=
  ⟨h'.1, by rw [h'.2, h.2, List.map_append, List.append_assoc]⟩

/-- Whatever others do while it waits, a look at the price is told what its own request is. -/
theorem ensures_price_of_feed (hw : w.paper.feed = some feed) (marketId : String) :
    (price marketId).run.Ensures asks (fun w => w.paper.feed = some feed)
      (fun t' r w => ∃ answer, Heard feed marketId t [answer] t' w ∧
        r = answer.mapError .error) t w := by
  rw [price, ensures_look, hw]
  dsimp only
  rw [Call.ensures_bind]
  refine Http.Client.ensures_get (fun _ _ h => h) hw asks_of_ne fun w' hw' => ?_
  have hlink : linkSlot.get w = w.link := rfl
  rw [asks_of_get hw, hlink]
  generalize feed.answer _ decodeLast w.link = r
  cases r with
  | error e => exact ⟨_, ⟨hw', rfl⟩, rfl⟩
  | ok last => exact ensures_change.mpr ⟨.ok last, ⟨hw', rfl⟩, rfl⟩

theorem ensures_orderBook_of_feed (hw : w.paper.feed = some feed) (marketId : String) :
    (orderBook marketId).run.Ensures asks (fun w => w.paper.feed = some feed)
      (fun t' r w => ∃ answer, Heard feed marketId t [answer] t' w ∧
        r = bookOf marketId answer) t w := by
  rw [orderBook, Call.ensures_bind]
  refine (ensures_price_of_feed hw marketId).mono fun t' r w' hr => ?_
  obtain ⟨answer, hheard, rfl⟩ := hr
  cases answer with
  | error e => exact ⟨_, hheard, rfl⟩
  | ok price => exact Call.ensures_compute.mpr ⟨.ok price, hheard, rfl⟩

theorem ensures_ticker_of_feed (hw : w.paper.feed = some feed) (marketId : String) :
    (ticker marketId).run.Ensures asks (fun w => w.paper.feed = some feed)
      (fun t' r w => ∃ now answers, (Query.ticker marketId).Uses now answers (r.map .ticker) ∧
        Heard feed marketId t answers t' w) t w := by
  rw [ticker, Call.ensures_bind]
  refine (ensures_orderBook_of_feed hw marketId).mono fun t' r w' hr => ?_
  obtain ⟨answer, hheard, rfl⟩ := hr
  cases answer with
  | error e => exact ⟨⟨0, 0⟩, _, .tickerFails marketId e, hheard⟩
  | ok price =>
    cases hb : bookAround marketId price with
    | error c =>
      rw [bookOf, hb]
      exact ⟨⟨0, 0⟩, _, .tickerOverflows hb, hheard⟩
    | ok b =>
      rw [bookOf, hb]
      show (Paper.price marketId >>= _).run.Ensures _ _ _ _ _
      rw [Call.ensures_bind]
      refine (ensures_price_of_feed hheard.1 marketId).mono fun t'' r w'' hr => ?_
      obtain ⟨last, hheard', rfl⟩ := hr
      cases last with
      | error e => exact ⟨⟨0, 0⟩, _, .ticker (.error e) hb, hheard.append hheard'⟩
      | ok last =>
        dsimp only [Except.mapError]
        rw [Call.ensures_bind, Call.ensures_lift, Program.ensures_now]
        exact fun now => Call.ensures_pure.mpr
          ⟨now, _, .ticker (.ok last) hb, hheard.append hheard'⟩

theorem ensures_answering {α : Type} {I : World → Prop}
    {Q : List Ask → Except Fault Answer → World → Prop} {c : Call World α} {k : α → Answer}
    (h : c.run.Ensures asks I (fun t r w => Q t (r.map k) w) t w) :
    (do return k (← c) : Call World Answer).run.Ensures asks I Q t w := by
  rw [Call.ensures_bind]
  refine h.mono fun t r w hr => ?_
  cases r with
  | error f => exact hr
  | ok a => exact Call.ensures_pure.mpr hr

/-- What a query comes to, by the requests that it has announced. -/
def Query.ComesTo (feed : Http.Client) (q : Query) (t t' : List Ask) (r : Except Fault Answer)
    (w : World) : Prop :=
  match q.market? with
  | some m => ∃ now answers, q.Uses now answers r ∧ Heard feed m t answers t' w
  | none => t' = t

/-- **A query uses its own answers**, whatever others do while it waits. -/
theorem Query.ensures_comesTo (hw : w.paper.feed = some feed) (q : Query) :
    q.call.run.Ensures asks (fun w => w.paper.feed = some feed) (q.ComesTo feed t) t w := by
  cases q with
  | price m =>
    refine ensures_answering ((ensures_price_of_feed hw m).mono fun t' r w' hr => ?_)
    obtain ⟨answer, hheard, rfl⟩ := hr
    refine ⟨⟨0, 0⟩, _, ?_, hheard⟩
    cases answer <;> exact .price m _
  | orderBook m =>
    refine ensures_answering ((ensures_orderBook_of_feed hw m).mono fun t' r w' hr => ?_)
    obtain ⟨answer, hheard, rfl⟩ := hr
    exact ⟨⟨0, 0⟩, _, .orderBook m answer, hheard⟩
  | ticker m => exact ensures_answering (ensures_ticker_of_feed hw m)
  | balances =>
    refine ensures_answering ?_
    show (Call.lift look >>= fun p => Call.compute p.balances).run.Ensures _ _ _ _ _
    rw [ensures_look, Call.ensures_compute]
    rfl
  | buyFee m | sellFee m => exact ensures_answering (ensures_look.mpr (Call.ensures_pure.mpr rfl))
  | setPrice m amount => exact ensures_change.mpr rfl

/-- So does the placing of an order. -/
theorem ensures_place_of_feed {ticket : Ticket} (ht : Acceptable ticket)
    (hw : w.paper.feed = some feed) :
    (place ticket).run.Ensures asks (fun w => w.paper.feed = some feed)
      (fun t' r w => ∃ now id answers, (Errand.place ticket).Uses now id answers (.placed r) ∧
        Heard feed ticket.marketId t answers t' w) t w := by
  rw [place_eq, if_pos ht, Call.ensures_bind]
  refine (ensures_price_of_feed hw ticket.marketId).mono fun t' r w' hr => ?_
  obtain ⟨answer, hheard, rfl⟩ := hr
  cases answer with
  | error e => exact ⟨⟨0, 0⟩, "", _, .fails e ht, hheard⟩
  | ok price =>
    dsimp only [Except.mapError]
    rw [ensures_look, enter, Call.ensures_bind, Call.ensures_lift, Program.ensures_now]
    intro now
    dsimp only
    rw [Call.ensures_bind, Call.ensures_compute]
    cases ho : orderOf ticket (orderId (w'.paper.issued + 1)) now with
    | error c => exact ⟨now, _, _, .overflows price ht ho, hheard⟩
    | ok o =>
      dsimp only [Except.mapError]
      rw [Call.ensures_bind, Call.ensures_lift, Program.ensures_tell,
        asks_of_ne _ _ _ _ (by decide), List.append_nil]
      exact ensures_change.mpr ⟨now, _, _, .placed price ht ho, hheard⟩

end Paper

end TradingBot
