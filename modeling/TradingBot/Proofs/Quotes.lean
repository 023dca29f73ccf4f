import Mathlib.Data.List.Forall2
import TradingBot.Proofs.DecimalRounding
import TradingBot.Proofs.PaperCrashes

/-!
# What the paper exchange quotes

**Levels** (`Paper.Lies`). A level lies at a distance from the price that is rounded once, and its
price is the sum or the difference, rounded once more. As rounding keeps the order, a level with a
larger number lies no nearer, whatever the numbers of places.

**Order** (`OrderBook.Orderly`). Each side of a book goes away from the price, and the price lies
between the two.

**Tickers** (`Paper.gives_ticker_iff`). A ticker is what two successive looks at the price make of
it: the book is that of the first one, the last price that of the second one.

**Theorem (`Paper.quotes_orderly`).** Every book around a price that is not negative is in order.
-/

namespace TradingBot

/-! ## Computations that give a value -/

section

variable {α β : Type}

theorem forall₂_of_mapM_eq_ok {f : α → Except Crash β} {l : List α} {l' : List β}
    (h : l.mapM f = .ok l') : List.Forall₂ (fun a b => f a = .ok b) l l' := by
  induction l generalizing l' with
  | nil =>
    cases h
    exact .nil
  | cons a l ih =>
    rw [List.mapM_cons] at h
    obtain ⟨b, hb, h⟩ := bind_eq_ok_iff.mp h
    obtain ⟨bs, hbs, h⟩ := bind_eq_ok_iff.mp h
    cases h
    exact .cons hb (ih hbs)

theorem exists_of_forall₂ {R : α → β → Prop} {l : List α} {l' : List β} (h : List.Forall₂ R l l')
    {b : β} (hb : b ∈ l') : ∃ a ∈ l, R a b := by
  induction h with
  | nil => cases hb
  | cons hab _ ih =>
    rcases List.mem_cons.mp hb with rfl | hb
    · exact ⟨_, List.mem_cons_self, hab⟩
    · obtain ⟨a, ha, hab⟩ := ih hb
      exact ⟨a, List.mem_cons_of_mem _ ha, hab⟩

theorem pairwise_of_forall₂ {R : α → β → Prop} {S : α → α → Prop} {T : β → β → Prop} {l : List α}
    {l' : List β} (h : List.Forall₂ R l l') (hl : l.Pairwise S)
    (hT : ∀ a ∈ l, ∀ a' ∈ l, ∀ b b', S a a' → R a b → R a' b' → T b b') : l'.Pairwise T := by
  induction h with
  | nil => exact .nil
  | @cons a b l l' hab hrest ih =>
    obtain ⟨ha, hl⟩ := List.pairwise_cons.mp hl
    refine List.pairwise_cons.mpr ⟨fun b' hb' => ?_, ih hl fun a₁ h₁ a₂ h₂ =>
      hT a₁ (List.mem_cons_of_mem _ h₁) a₂ (List.mem_cons_of_mem _ h₂)⟩
    obtain ⟨a', ha', hab'⟩ := exists_of_forall₂ hrest hb'
    exact hT a List.mem_cons_self a' (List.mem_cons_of_mem _ ha') b b' (ha a' ha') hab hab'

end

/-! ## Books in order -/

/-- A book as it should be around a price. -/
structure OrderBook.Orderly (price : Decimal) (b : OrderBook) : Prop where
  /-- Sell prices never decrease. -/
  sells : b.sells.Pairwise fun l l' => l.price ≤ l'.price
  /-- Buy prices never increase. -/
  buys : b.buys.Pairwise fun l l' => l'.price ≤ l.price
  asks : ∀ l ∈ b.sells, price ≤ l.price
  bids : ∀ l ∈ b.buys, .zero ≤ l.price ∧ l.price ≤ price
  even : b.sells.length = b.buys.length
  totals : ∀ l ∈ b.sells ++ b.buys, l.total.SameValue l.price
  /-- The price lies between the best ones, and they have a distance. -/
  spread : ∃ bid ask distance, b.bestBid = some bid ∧ b.bestAsk = some ask ∧ bid ≤ price ∧
    price ≤ ask ∧ b.spread = .ok (some distance) ∧ .zero ≤ distance

namespace Paper

open Decimal (Rounds)

/-! ## Levels -/

variable {price number number' : Decimal} {l l' : Level}

theorem total_of_level {side : Side} (h : Level.of side price .one = .ok l) :
    l.price = price ∧ l.total.SameValue price := by
  obtain ⟨total, ht, h⟩ := bind_eq_ok_iff.mp h
  cases h
  have hround := Decimal.mul?_rounds (Decimal.mul_eq_ok.mp ht)
  rw [Decimal.value_one, mul_one] at hround
  exact ⟨rfl, Decimal.sameValue_iff_value_eq.mpr hround.value_eq⟩

/-- The distance of a level is a share of the price, rounded. -/
def Lies (price number distance : Decimal) : Prop :=
  ∃ share, number.mul bookStep = .ok share ∧ 0 < share.value ∧ share.value ≤ 1 / 200 ∧
    Rounds (share.value * price.value) distance

theorem lies_of_levelDistance (hn : number ∈ levelNumbers) {distance : Decimal}
    (h : levelDistance price number = .ok distance) : Lies price number distance := by
  obtain ⟨share, hs, h⟩ := bind_eq_ok_iff.mp h
  obtain ⟨share', hs', hpos, hle⟩ := exists_share hn
  cases hs.symm.trans hs'
  exact ⟨share, hs, hpos, hle, Decimal.mul?_rounds (Decimal.mul_eq_ok.mp h)⟩

theorem Lies.nonneg {distance : Decimal} (h : Lies price number distance)
    (h0 : 0 ≤ price.value) : 0 ≤ distance.value := by
  obtain ⟨share, -, hpos, -, hround⟩ := h
  exact hround.nonneg (mul_nonneg hpos.le h0)

theorem Lies.le_price {distance : Decimal} (h : Lies price number distance)
    (h0 : 0 ≤ price.value) : distance.value ≤ price.value := by
  obtain ⟨share, -, -, hle, hround⟩ := h
  exact hround.ge_of_ge (mul_le_of_le_one_left h0 (by linarith))

/-- The larger the number, the larger the distance. -/
theorem Lies.mono {distance distance' : Decimal} (h : Lies price number distance)
    (h' : Lies price number' distance') (h0 : 0 ≤ price.value) (hle : number ≤ number') :
    distance.value ≤ distance'.value := by
  obtain ⟨share, hs, -, -, hround⟩ := h
  obtain ⟨share', hs', -, -, hround'⟩ := h'
  refine hround.mono hround' (mul_le_mul_of_nonneg_right ?_ h0)
  refine (Decimal.mul?_rounds (Decimal.mul_eq_ok.mp hs)).mono
    (Decimal.mul?_rounds (Decimal.mul_eq_ok.mp hs')) ?_
  have hstep : 0 ≤ bookStep.value := by norm_num [Decimal.value, bookStep]
  exact mul_le_mul_of_nonneg_right (Decimal.le_iff_value_le.mp hle) hstep

theorem of_sellLevel (h : sellLevel price number = .ok l) :
    ∃ distance, levelDistance price number = .ok distance ∧
      Rounds (price.value + distance.value) l.price ∧ l.total.SameValue l.price := by
  obtain ⟨distance, hd, h⟩ := bind_eq_ok_iff.mp h
  obtain ⟨ask, ha, h⟩ := bind_eq_ok_iff.mp h
  obtain ⟨rfl, htotal⟩ := total_of_level h
  exact ⟨distance, hd, Decimal.add?_rounds (Decimal.add_eq_ok.mp ha), htotal⟩

theorem of_buyLevel (h : buyLevel price number = .ok l) :
    ∃ distance, levelDistance price number = .ok distance ∧
      Rounds (price.value - distance.value) l.price ∧ l.total.SameValue l.price := by
  obtain ⟨distance, hd, h⟩ := bind_eq_ok_iff.mp h
  obtain ⟨bid, hb, h⟩ := bind_eq_ok_iff.mp h
  obtain ⟨rfl, htotal⟩ := total_of_level h
  exact ⟨distance, hd, Decimal.sub?_rounds (Decimal.sub_eq_ok.mp hb), htotal⟩

theorem le_sellLevel (hn : number ∈ levelNumbers) (h0 : 0 ≤ price.value)
    (h : sellLevel price number = .ok l) : price ≤ l.price := by
  obtain ⟨distance, hd, hround, -⟩ := of_sellLevel h
  have hpos := (lies_of_levelDistance hn hd).nonneg h0
  exact Decimal.le_iff_value_le.mpr (hround.le_of_le (by linarith))

theorem buyLevel_le (hn : number ∈ levelNumbers) (h0 : 0 ≤ price.value)
    (h : buyLevel price number = .ok l) : .zero ≤ l.price ∧ l.price ≤ price := by
  obtain ⟨distance, hd, hround, -⟩ := of_buyLevel h
  have hlies := lies_of_levelDistance hn hd
  constructor
  · exact Decimal.zero_le_iff.mpr (hround.nonneg (by linarith [hlies.le_price h0]))
  · exact Decimal.le_iff_value_le.mpr (hround.ge_of_ge (by linarith [hlies.nonneg h0]))

theorem sellLevel_mono (hn : number ∈ levelNumbers) (hn' : number' ∈ levelNumbers)
    (h0 : 0 ≤ price.value) (hle : number ≤ number') (h : sellLevel price number = .ok l)
    (h' : sellLevel price number' = .ok l') : l.price ≤ l'.price := by
  obtain ⟨distance, hd, hround, -⟩ := of_sellLevel h
  obtain ⟨distance', hd', hround', -⟩ := of_sellLevel h'
  have hfar := (lies_of_levelDistance hn hd).mono (lies_of_levelDistance hn' hd') h0 hle
  exact Decimal.le_iff_value_le.mpr (hround.mono hround' (by linarith))

theorem buyLevel_anti (hn : number ∈ levelNumbers) (hn' : number' ∈ levelNumbers)
    (h0 : 0 ≤ price.value) (hle : number ≤ number') (h : buyLevel price number = .ok l)
    (h' : buyLevel price number' = .ok l') : l'.price ≤ l.price := by
  obtain ⟨distance, hd, hround, -⟩ := of_buyLevel h
  obtain ⟨distance', hd', hround', -⟩ := of_buyLevel h'
  have hfar := (lies_of_levelDistance hn hd).mono (lies_of_levelDistance hn' hd') h0 hle
  exact Decimal.le_iff_value_le.mpr (hround'.mono hround (by linarith))

theorem levelNumbers_sorted : levelNumbers.Pairwise fun n n' => n ≤ n' := by decide

/-! ## Books -/

variable {marketId : String} {b : OrderBook}

theorem of_bookAround (h : bookAround marketId price = .ok b) :
    b.marketId = marketId ∧
      List.Forall₂ (fun n l => sellLevel price n = .ok l) levelNumbers b.sells ∧
      List.Forall₂ (fun n l => buyLevel price n = .ok l) levelNumbers b.buys := by
  obtain ⟨sells, hs, h⟩ := bind_eq_ok_iff.mp h
  obtain ⟨buys, hb, h⟩ := bind_eq_ok_iff.mp h
  cases h
  exact ⟨rfl, forall₂_of_mapM_eq_ok hs, forall₂_of_mapM_eq_ok hb⟩

theorem best_of_bookAround (h : bookAround marketId price = .ok b) : ∃ bid ask,
    buyLevel price .one = .ok bid ∧ sellLevel price .one = .ok ask ∧ bid ∈ b.buys ∧
      ask ∈ b.sells ∧ b.bestBid = some bid.price ∧ b.bestAsk = some ask.price := by
  obtain ⟨-, hsells, hbuys⟩ := of_bookAround h
  obtain ⟨ask, asks, hask, -, hs⟩ := List.forall₂_cons_left_iff.mp hsells
  obtain ⟨bid, bids, hbid, -, hb⟩ := List.forall₂_cons_left_iff.mp hbuys
  refine ⟨bid, ask, hbid, hask, hb ▸ List.mem_cons_self, hs ▸ List.mem_cons_self, ?_, ?_⟩
  · rw [OrderBook.bestBid, hb]
    rfl
  · rw [OrderBook.bestAsk, hs]
    rfl

theorem exists_spread {bid ask : Decimal} (h0 : .zero ≤ bid) (hle : bid ≤ ask) :
    ∃ distance, ask.sub bid = .ok distance ∧ .zero ≤ distance := by
  have h0 := Decimal.zero_le_iff.mp h0
  have hle := Decimal.le_iff_value_le.mp hle
  have hin : ¬ Fails (ask.sub bid) := by
    rw [Decimal.fails_sub_iff]
    refine Decimal.not_outOfRange_of_lt ?_
    have hmax := le_of_abs_le ask.abs_value_le
    rw [abs_of_nonneg (by linarith)]
    linarith
  obtain ⟨distance, hd⟩ := not_fails_iff.mp hin
  have hround := Decimal.sub?_rounds (Decimal.sub_eq_ok.mp hd)
  exact ⟨distance, hd, Decimal.zero_le_iff.mpr (hround.nonneg (by linarith))⟩

/-- **A book around a price is in order**, unless the price is negative. -/
theorem orderly_of_bookAround (h0 : .zero ≤ price) (h : bookAround marketId price = .ok b) :
    b.Orderly price := by
  have h0 := Decimal.zero_le_iff.mp h0
  obtain ⟨-, hsells, hbuys⟩ := of_bookAround h
  have hask (l : Level) (hl : l ∈ b.sells) : price ≤ l.price := by
    obtain ⟨number, hn, hlevel⟩ := exists_of_forall₂ hsells hl
    exact le_sellLevel hn h0 hlevel
  have hbid (l : Level) (hl : l ∈ b.buys) : .zero ≤ l.price ∧ l.price ≤ price := by
    obtain ⟨number, hn, hlevel⟩ := exists_of_forall₂ hbuys hl
    exact buyLevel_le hn h0 hlevel
  -- The levels are sorted because their numbers are, and a level moves away from the price as its
  -- number grows.
  refine ⟨?_, ?_, hask, hbid, hsells.length_eq.symm.trans hbuys.length_eq, fun l hl => ?_, ?_⟩
  · exact pairwise_of_forall₂ hsells levelNumbers_sorted
      fun n hn n' hn' l l' hle hl hl' => sellLevel_mono hn hn' h0 hle hl hl'
  · exact pairwise_of_forall₂ hbuys levelNumbers_sorted
      fun n hn n' hn' l l' hle hl hl' => buyLevel_anti hn hn' h0 hle hl hl'
  · rcases List.mem_append.mp hl with hl | hl
    · obtain ⟨number, -, hlevel⟩ := exists_of_forall₂ hsells hl
      obtain ⟨-, -, -, htotal⟩ := of_sellLevel hlevel
      exact htotal
    · obtain ⟨number, -, hlevel⟩ := exists_of_forall₂ hbuys hl
      obtain ⟨-, -, -, htotal⟩ := of_buyLevel hlevel
      exact htotal
  · obtain ⟨bid, ask, -, -, hb, ha, hbest, hbest'⟩ := best_of_bookAround h
    obtain ⟨hpos, hle⟩ := hbid bid hb
    have hle' := hask ask ha
    have hbetween : bid.price ≤ ask.price :=
      Decimal.le_iff_value_le.mpr
        ((Decimal.le_iff_value_le.mp hle).trans (Decimal.le_iff_value_le.mp hle'))
    obtain ⟨distance, hd, hpos⟩ := exists_spread hpos hbetween
    refine ⟨bid.price, ask.price, distance, hbest, hbest', hle, hle', ?_, hpos⟩
    rw [OrderBook.spread, hbest, hbest']
    dsimp only
    rw [hd]
    rfl

/-! ## Looks at the price -/

open Call (gives_bind_iff gives_compute_iff)

variable {now : Timestamp} {w : World}

def tickerOf (now : Timestamp) (b : OrderBook) (last : Decimal) : Ticker :=
  { last, bid := b.bestBid, ask := b.bestAsk, timestamp := some now }

theorem gives_orderBook_iff : (orderBook marketId).Gives now w b ↔
    ∃ p, (Paper.price marketId).Gives now w p ∧ bookAround marketId p = .ok b := by
  rw [orderBook, gives_bind_iff]
  simp only [gives_compute_iff]

theorem run_orderBook_snd : ((orderBook marketId).run.run now w).2 =
    ((Paper.price marketId).run.run now w).2 := by
  rw [orderBook, Call.run_bind]
  generalize (Paper.price marketId).run.run now w = looked
  obtain ⟨r, w'⟩ := looked
  cases r with
  | ok p =>
    show ((Call.compute (bookAround marketId p) : Call World OrderBook).run.run now w').2 = w'
    rw [Call.run_compute]
  | error f => rfl

/-- **A ticker looks at the price twice.** The book is that of the first look, and the last price
that of the second one. -/
theorem gives_ticker_iff {t : Ticker} : (ticker marketId).Gives now w t ↔
    ∃ p b q, (Paper.price marketId).Gives now w p ∧ bookAround marketId p = .ok b ∧
      (Paper.price marketId).Gives now ((Paper.price marketId).run.run now w).2 q ∧
      t = tickerOf now b q := by
  have hlast (b : OrderBook) (q : Decimal) (w : World) :
      (do
        let time ← Call.lift Program.now
        return tickerOf time b q : Call World Ticker).Gives now w t ↔ t = tickerOf now b q := by
    show Except.ok (tickerOf now b q) = Except.ok t ↔ _
    rw [Except.ok.injEq, eq_comm]
  show (orderBook marketId >>= fun b => Paper.price marketId >>= fun q => do
      let time ← Call.lift Program.now
      return tickerOf time b q : Call World Ticker).Gives now w t ↔ _
  simp only [gives_bind_iff (c := orderBook marketId), gives_bind_iff (c := Paper.price marketId),
    gives_orderBook_iff, run_orderBook_snd, hlast]
  constructor
  · rintro ⟨b, ⟨p, hp, hb⟩, q, hq, ht⟩
    exact ⟨p, b, q, hp, hb, hq, ht⟩
  · rintro ⟨p, b, q, hp, hb, hq, ht⟩
    exact ⟨b, ⟨p, hp, hb⟩, q, hq, ht⟩

theorem run_price_of_seeded (hf : w.paper.feed = none) :
    (Paper.price marketId).run.run now w =
      ((w.paper.seededPrice marketId).mapError .error, w) := by
  rw [Paper.price, run_look, hf]
  dsimp only
  rw [run_look]
  cases w.paper.seededPrice marketId <;> rfl

/-- **Quotes are in order.** Let a market have a price that is not negative. Then there is a book
exactly if no ask is out of range, and every book is in order around the price. Without a feed, a
ticker tells the best prices of this book, and between them the price. -/
theorem quotes_orderly {marketId : String} {now : Timestamp} {w : World} {price : Decimal}
    (hp : (exchange.price marketId).Gives now w price) (h0 : .zero ≤ price) :
    ((∃ b, (exchange.orderBook marketId).Gives now w b) ↔ ¬ AsksOverflow price) ∧
    (∀ b, (exchange.orderBook marketId).Gives now w b → b.marketId = marketId ∧ b.Orderly price) ∧
    (w.paper.feed = none → ∀ t, (exchange.ticker marketId).Gives now w t ↔
      ∃ b, (exchange.orderBook marketId).Gives now w b ∧
        t = { last := price, bid := b.bestBid, ask := b.bestAsk, timestamp := some now }) := by
  have hbook (b : OrderBook) : (exchange.orderBook marketId).Gives now w b ↔
      bookAround marketId price = .ok b := by
    refine gives_orderBook_iff.trans ⟨?_, fun hb => ⟨price, hp, hb⟩⟩
    rintro ⟨p, hp', hb⟩
    rwa [hp.unique hp']
  refine ⟨?_, fun b hb => ?_, fun hf t => gives_ticker_iff.trans ?_⟩
  · have hfails : Fails (bookAround marketId price) ↔ AsksOverflow price := fails_bookAround_iff
    rw [← hfails, not_fails_iff]
    exact exists_congr hbook
  · have hb := (hbook b).mp hb
    exact ⟨(of_bookAround hb).1, orderly_of_bookAround h0 hb⟩
  · have hsame : ((Paper.price marketId).run.run now w).2 = w := by rw [run_price_of_seeded hf]
    rw [hsame]
    constructor
    · rintro ⟨p, b, q, hp', hb, hq, rfl⟩
      obtain rfl := hp.unique hp'
      obtain rfl := hp.unique hq
      exact ⟨b, (hbook b).mpr hb, rfl⟩
    · rintro ⟨b, hb, rfl⟩
      exact ⟨price, b, price, hp, (hbook b).mp hb, hp, rfl⟩

end Paper

/-! ## Rehearsed quotes -/

namespace Rehearsed

open Paper

/-- The largest price with all places. -/
def fine : Decimal where
  coeff := Decimal.maxCoeff
  scale := Decimal.maxScale
  coeff_le := Nat.le_refl Decimal.maxCoeff
  scale_le := Nat.le_refl Decimal.maxScale

def stall : World := { paper := { prices := .ofList [("btcusd", fine)] } }

/-- The bids have as many places as the price, and the asks have fewer. -/
theorem quotes_rehearsed : (exchange.price "btcusd").Gives dawn stall fine ∧ .zero ≤ fine ∧
    ∃ b bid ask, (exchange.orderBook "btcusd").Gives dawn stall b ∧ b.Orderly fine ∧
      b.bestBid = some bid ∧ bid.scale = 28 ∧ b.bestAsk = some ask ∧ ask.scale = 27 ∧
      (exchange.ticker "btcusd").Gives dawn stall
        { last := fine, bid := some bid, ask := some ask, timestamp := some dawn } := by
  have hp : (exchange.price "btcusd").Gives dawn stall fine := by
    show (_ : Except Fault Decimal) = _
    decide +kernel
  have h0 : .zero ≤ fine := by decide +kernel
  obtain ⟨-, horderly, hticker⟩ := quotes_orderly hp h0
  have hscales : (((exchange.orderBook "btcusd").run.run dawn stall).1.toOption.map fun b =>
      (b.bestBid.map (·.scale), b.bestAsk.map (·.scale))) = some (some 28, some 27) := by
    decide +kernel
  cases hb : ((exchange.orderBook "btcusd").run.run dawn stall).1 with
  | error f =>
    rw [hb] at hscales
    cases hscales
  | ok b =>
    rw [hb] at hscales
    obtain ⟨hbid, hask⟩ := Prod.ext_iff.mp (Option.some.inj hscales)
    obtain ⟨bid, hbid, hbid'⟩ := Option.map_eq_some_iff.mp hbid
    obtain ⟨ask, hask, hask'⟩ := Option.map_eq_some_iff.mp hask
    refine ⟨hp, h0, b, bid, ask, hb, (horderly b hb).2, hbid, hbid', hask, hask', ?_⟩
    rw [hticker rfl, ← hbid, ← hask]
    exact ⟨b, hb, rfl⟩

end Rehearsed

end TradingBot
