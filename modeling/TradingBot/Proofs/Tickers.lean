import TradingBot.Proofs.FeedRuns
import TradingBot.Proofs.Quotes
import TradingBot.Proofs.Verdicts

/-!
# Tickers of a live market

**Two answers** (`Paper.World.Tells`). With a feed, a ticker takes two requests: one for the book
and one for the last price. The market may move in between.

**Coherence** (`Ticker.Coherent`). The last price of a ticker should lie between the bid and the
ask, which lie a tenth of a percent away from the price of the book (`Paper.Flanks`).

**Theorem (`Paper.tickers_of_feed`).** It does exactly if the second answer is within that distance
of the first one, as it is if both tell the same price. A market that moves further leaves a ticker
whose parts are of different times (`Rehearsed.ticker_of_moving_market`).
-/

namespace TradingBot

/-! ## Coherent tickers -/

/-- The last price lies between the best ones. -/
def Ticker.Coherent (t : Ticker) : Prop :=
  ∃ bid ask, t.bid = some bid ∧ t.ask = some ask ∧ bid ≤ t.last ∧ t.last ≤ ask

theorem Ticker.coherent_iff {t : Ticker} {bid ask : Decimal} (hb : t.bid = some bid)
    (ha : t.ask = some ask) : t.Coherent ↔ bid ≤ t.last ∧ t.last ≤ ask := by
  constructor
  · rintro ⟨bid', ask', hb', ha', h⟩
    cases hb.symm.trans hb'
    cases ha.symm.trans ha'
    exact h
  · exact fun h => ⟨bid, ask, hb, ha, h⟩

namespace Paper

open Decimal (Rounds)

/-! ## Looks at a feed -/

variable {marketId : String} {now : Timestamp} {w : World} {feed : Http.Client}

/-- What the feed answers when it is asked for a market's price. -/
def World.told (w : World) (feed : Http.Client) (marketId : String) : Except ApiError Decimal :=
  feed.answer (feed.address (feedPath marketId)) decodeLast w.link

theorem told_congr {w' : World} (h : w.link = w'.link) :
    w.told feed marketId = w'.told feed marketId := by
  rw [World.told, World.told, h]

/-- With a feed, a look at the price is a request to it, and what it tells is kept. -/
theorem run_price_of_feed (hf : w.paper.feed = some feed) :
    (price marketId).run.run now w =
      ((w.told feed marketId).mapError .error,
        { paper := match w.told feed marketId with
            | .ok last => w.paper.setPrice marketId last
            | .error _ => w.paper
          link := w.link.asked (feed.address (feedPath marketId)) }) := by
  have hget : ((feed.get (feedPath marketId) decodeLast).zoom linkSlot).run.run now w =
      ((w.told feed marketId).mapError .error,
        { w with link := w.link.asked (feed.address (feedPath marketId)) }) := by
    have hlink : linkSlot.get w = w.link := rfl
    rw [Call.run_zoom, Program.run_zoom, hlink, Http.Client.run_get]
    dsimp only [linkSlot, World.told]
  rw [price, run_look, hf]
  dsimp only
  rw [Call.run_bind, hget]
  generalize w.link.asked (feed.address (feedPath marketId)) = link
  cases w.told feed marketId <;> rfl

/-- The feed tells two prices in a row. -/
structure World.Tells (w : World) (feed : Http.Client) (marketId : String)
    (first second : Decimal) : Prop where
  first : w.told feed marketId = .ok first
  second : { w with link := w.link.asked (feed.address (feedPath marketId)) }.told feed marketId =
    .ok second

theorem tells_iff (hf : w.paper.feed = some feed) {first second : Decimal} :
    w.Tells feed marketId first second ↔ (price marketId).Gives now w first ∧
      (price marketId).Gives now ((price marketId).run.run now w).2 second := by
  have hgives {w : World} (hf : w.paper.feed = some feed) (p : Decimal) :
      (price marketId).Gives now w p ↔ w.told feed marketId = .ok p := by
    rw [Call.Gives, run_price_of_feed hf]
    cases w.told feed marketId <;> simp [Except.mapError]
  have hafter : ((price marketId).run.run now w).2.paper.feed = some feed := by
    rw [run_price_of_feed hf, ← hf]
    dsimp only
    split <;> rfl
  have htold : ((price marketId).run.run now w).2.told feed marketId =
      { w with link := w.link.asked (feed.address (feedPath marketId)) }.told feed marketId :=
    told_congr (by rw [run_price_of_feed hf])
  rw [hgives hf, hgives hafter, htold]
  exact ⟨fun h => ⟨h.first, h.second⟩, fun h => ⟨h.1, h.2⟩⟩

/-! ## The best prices -/

/-- The best prices of the book around a price: a tenth of a percent away from it, each figure
rounded. -/
def Flanks (price bid ask : Decimal) : Prop :=
  ∃ distance, Rounds (price.value / 1000) distance ∧ Rounds (price.value - distance.value) bid ∧
    Rounds (price.value + distance.value) ask

theorem rounds_levelDistance_one {price distance : Decimal}
    (h : levelDistance price .one = .ok distance) : Rounds (price.value / 1000) distance := by
  obtain ⟨share, hs, h⟩ := bind_eq_ok_iff.mp h
  have hshare := Decimal.mul?_rounds (Decimal.mul_eq_ok.mp hs)
  rw [Decimal.value_one, one_mul] at hshare
  have hvalue : share.value = 1 / 1000 := by
    rw [hshare.value_eq]
    norm_num [Decimal.value, bookStep, pow10]
  have hround := Decimal.mul?_rounds (Decimal.mul_eq_ok.mp h)
  rwa [hvalue, one_div_mul_eq_div] at hround

theorem flanks_of_bookAround {price : Decimal} {b : OrderBook}
    (h : bookAround marketId price = .ok b) :
    ∃ bid ask, b.bestBid = some bid ∧ b.bestAsk = some ask ∧ Flanks price bid ask := by
  obtain ⟨bid, ask, hbid, hask, -, -, hbest, hbest'⟩ := best_of_bookAround h
  obtain ⟨distance, hd, hround, -⟩ := of_buyLevel hbid
  obtain ⟨distance', hd', hround', -⟩ := of_sellLevel hask
  cases hd.symm.trans hd'
  exact ⟨bid.price, ask.price, hbest, hbest', distance, rounds_levelDistance_one hd, hround,
    hround'⟩

/-! ## Tickers -/

/-- **A ticker of a live market** is made of two answers in a row. It tells the second one, next to
the best prices around the first one; so it is coherent exactly if the market has not left these
in between. -/
theorem tickers_of_feed (hf : w.paper.feed = some feed) :
    (∀ first second, w.Tells feed marketId first second → ¬ AsksOverflow first →
      ∃ t, (exchange.ticker marketId).Gives now w t) ∧
    ∀ t, (exchange.ticker marketId).Gives now w t →
      ∃ first second bid ask, w.Tells feed marketId first second ∧ Flanks first bid ask ∧
        t = { last := second, bid := some bid, ask := some ask, timestamp := some now } ∧
        (t.Coherent ↔ bid ≤ second ∧ second ≤ ask) ∧
        (.zero ≤ first → bid ≤ first ∧ first ≤ ask ∧ (second.SameValue first → t.Coherent)) := by
  constructor
  · intro first second htold hin
    obtain ⟨hfirst, hsecond⟩ := (tells_iff hf).mp htold
    have hfails : Fails (bookAround marketId first) ↔ AsksOverflow first := fails_bookAround_iff
    rw [← hfails, not_fails_iff] at hin
    obtain ⟨b, hb⟩ := hin
    exact ⟨_, gives_ticker_iff.mpr ⟨first, b, second, hfirst, hb, hsecond, rfl⟩⟩
  · intro t ht
    obtain ⟨first, b, second, hfirst, hb, hsecond, rfl⟩ := gives_ticker_iff.mp ht
    obtain ⟨bid, ask, hbid, hask, hflanks⟩ := flanks_of_bookAround hb
    have hcoherent := Ticker.coherent_iff (t := tickerOf now b second) hbid hask
    refine ⟨first, second, bid, ask, (tells_iff hf).mpr ⟨hfirst, hsecond⟩, hflanks, ?_,
      hcoherent, fun h0 => ?_⟩
    · rw [tickerOf, hbid, hask]
    -- The book is in order around the first answer. The last price is only in it if the second one
    -- is.
    · obtain ⟨bid', ask', -, hbid', hask', hle, hle', -⟩ := (orderly_of_bookAround h0 hb).spread
      cases hbid.symm.trans hbid'
      cases hask.symm.trans hask'
      refine ⟨hle, hle', fun hsame => hcoherent.mpr ?_⟩
      rw [Decimal.sameValue_iff_value_eq] at hsame
      rw [Decimal.le_iff_value_le] at hle hle' ⊢
      rw [Decimal.le_iff_value_le]
      show bid.value ≤ second.value ∧ second.value ≤ ask.value
      rw [hsame]
      exact ⟨hle, hle'⟩

end Paper

/-! ## A rehearsed market that moves -/

namespace Rehearsed

open Paper

def quoter : Http.Client := { base := "http://feed.test", network := {} }

/-- The feed tells a hundred, and then another price. -/
def moving (price : String) : World where
  paper := { feed := some quoter }
  link := { replies := [quote "100", quote price] }

/-- The market moves up to the ask, and no further. -/
theorem ticker_of_nudged_market : (moving "100.1").paper.feed = some quoter ∧
    ∃ t, (exchange.ticker "btcusd").Gives dawn (moving "100.1") t ∧
      t.last = { coeff := 1001, scale := 1 } ∧ t.ask = some { coeff := 100100, scale := 3 } ∧
      t.Coherent := by
  have hfeed : (moving "100.1").paper.feed = some quoter := rfl
  have ht : (exchange.ticker "btcusd").Gives dawn (moving "100.1")
      { last := { coeff := 1001, scale := 1 }, bid := some { coeff := 99900, scale := 3 },
        ask := some { coeff := 100100, scale := 3 }, timestamp := some dawn } := by
    show (_ : Except Fault Ticker) = _
    decide +kernel
  obtain ⟨first, second, bid, ask, -, -, he, hcoherent, -⟩ := (tickers_of_feed hfeed).2 _ ht
  refine ⟨hfeed, _, ht, rfl, rfl, hcoherent.mpr ?_⟩
  cases he
  decide

/-- The market doubles while a ticker is put together: its last price is far from its best ones. -/
theorem ticker_of_moving_market :
    (moving "200").Tells quoter "btcusd" (.ofNat 100) (.ofNat 200) ∧
    ∃ t, (exchange.ticker "btcusd").Gives dawn (moving "200") t ∧
      t.bid = some { coeff := 99900, scale := 3 } ∧ t.last = .ofNat 200 ∧
      t.ask = some { coeff := 100100, scale := 3 } ∧ ¬ t.Coherent := by
  have ht : (exchange.ticker "btcusd").Gives dawn (moving "200")
      { last := .ofNat 200, bid := some { coeff := 99900, scale := 3 },
        ask := some { coeff := 100100, scale := 3 }, timestamp := some dawn } := by
    show (_ : Except Fault Ticker) = _
    decide +kernel
  refine ⟨⟨by decide +kernel, by decide +kernel⟩, _, ht, rfl, rfl, rfl, ?_⟩
  rw [Ticker.coherent_iff rfl rfl]
  decide

end Rehearsed

end TradingBot
