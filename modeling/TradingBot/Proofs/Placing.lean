import TradingBot.Proofs.BalanceReports
import TradingBot.Proofs.FeedDriven

/-!
# Placing an order

**Prices** (`Paper.World.Quotes`). The price that a look finds for a market: the known one, or, with
a feed, the one that the reply to a request tells.

**A failure** (`Paper.World.Spared`). What a call leaves that places no order: everything but the
link and, with a feed, the known prices. Without a feed it leaves the world as it was.

**While others act** (`Paper.Desk.SparesOrders`). Of many calls at one exchange, those that fail to
place an order have entered none at any time, and never will.

**Theorem (`Paper.place_all_or_nothing`).** What placing an order comes to in any world, and what it
leaves there when it fails.
-/

namespace TradingBot.Paper

open Decimal (OutOfRange)

variable {marketId : String} {now : Timestamp} {w w' : World} {t : Ticket}

/-! ## Prices -/

theorem mapError_eq_ok_iff {ε ε' α : Type} {f : ε → ε'} {r : Except ε α} {a : α} :
    r.mapError f = .ok a ↔ r = .ok a := by
  cases r <;> simp [Except.mapError]

/-- A look at the price of a market finds one. -/
inductive World.Quotes (w : World) (marketId : String) (price : Decimal) : Prop
  | known : w.paper.feed = none → w.paper.prices.get? marketId = some price →
      Quotes w marketId price
  /-- The request gets through, and its reply is there in time and in full, tells success, and holds
  the price. -/
  | told {feed : Http.Client} {url : Http.Url} {reply : Http.Reply} : w.paper.feed = some feed →
      w.link.Reaches (feed.address (feedPath marketId)) url reply →
      reply.delay ≤ feed.timeout → reply.fate = .whole → reply.status.IsSuccess →
      (Json.parse reply.text).bind decodeLast = some price → Quotes w marketId price

theorem seededPrice_eq_ok_iff {p : Paper} {price : Decimal} :
    p.seededPrice marketId = .ok price ↔ p.prices.get? marketId = some price := by
  unfold seededPrice
  cases p.prices.get? marketId with
  | none => exact iff_of_false nofun nofun
  | some known => simp

theorem gives_price_iff {price : Decimal} :
    (Paper.price marketId).Gives now w price ↔ w.Quotes marketId price := by
  unfold Call.Gives
  cases hf : w.paper.feed with
  | none =>
    have hknown : (Paper.price marketId).run.run now w = _ := run_price_of_seeded hf
    rw [hknown, mapError_eq_ok_iff, seededPrice_eq_ok_iff]
    refine ⟨.known hf, fun h => ?_⟩
    cases h with
    | known _ h => exact h
    | told hfeed => cases hf.symm.trans hfeed
  | some feed =>
    have htold : (Paper.price marketId).run.run now w = _ := run_price_of_feed hf
    rw [htold, mapError_eq_ok_iff, World.told, Http.Client.answer_eq_ok_iff]
    constructor
    · rintro ⟨url, reply, hreach, hintime, hwhole, hstatus, hprice⟩
      exact .told hf hreach hintime hwhole hstatus hprice
    · intro h
      cases h with
      | known hnone => cases hf.symm.trans hnone
      | told hfeed hreach hintime hwhole hstatus hprice =>
        cases hf.symm.trans hfeed
        exact ⟨_, _, hreach, hintime, hwhole, hstatus, hprice⟩

/-! ## One call -/

/-- What a call leaves that has not placed an order. -/
structure World.Spared (w w' : World) : Prop where
  paper : ∃ prices, w'.paper = { w.paper with prices }
  /-- Without a feed, nothing has changed at all. -/
  unfed : w.paper.feed = none → w' = w
  /-- Whatever is done with the exchange afterwards shows nothing of the call but its request. -/
  later : ∀ uses : List Use, ((Session.start w').after uses).seen =
    ((Session.start { w with link := w'.link }).after uses).seen

theorem spared_price (now : Timestamp) (marketId : String) (w : World) :
    w.Spared ((price marketId).run.run now w).2 := by
  cases hf : w.paper.feed with
  | none =>
    have hknown : (price marketId).run.run now w = _ := run_price_of_seeded hf
    rw [hknown]
    exact ⟨⟨_, rfl⟩, fun _ => rfl, fun _ => rfl⟩
  | some feed =>
    have htold : (price marketId).run.run now w = _ := run_price_of_feed hf
    have hpaper : ∃ prices, ((price marketId).run.run now w).2.paper = { w.paper with prices } := by
      rw [htold]
      dsimp only
      cases w.told feed marketId <;> exact ⟨_, rfl⟩
    obtain ⟨prices, hprices⟩ := hpaper
    refine ⟨⟨prices, hprices⟩, fun hnone => ?_, fun uses => ?_⟩
    · cases hf.symm.trans hnone
    · have hakin : World.Akin True { w with link := ((price marketId).run.run now w).2.link }
          ((price marketId).run.run now w).2 := by
        refine ⟨rfl, ?_⟩
        rw [hprices]
        exact ⟨rfl, rfl, rfl, rfl, fun _ => by simp [hf], fun hfed => absurd trivial hfed⟩
      exact (seen_after_of_akin hakin uses).symm

/-- What placing an order comes to, and what it leaves. -/
structure Places (t : Ticket) (w : World) (r : Except Fault String) (w' : World) : Prop where
  /-- A refused ticket costs nothing, not even a look at the price. -/
  refused : ¬ Acceptable t → r = .error (.error (refusal t)) ∧ w' = w
  succeeds : Acceptable t → ((∃ id, r = .ok id) ↔
    (∃ price, w.Quotes t.marketId price) ∧ ¬ OutOfRange (t.price.value * t.quantity.value))
  /-- With a feed, a success has taken one request. -/
  asked : ∀ id feed, r = .ok id → w.paper.feed = some feed → ∃ url,
    Http.Url.parse (feed.address (feedPath t.marketId)) = .ok url ∧
    w'.link = { w.link with
      replies := w.link.replies.tail
      requests := w.link.requests ++ [{ method := .get, path := url.path }] }
  /-- The only crash is that of the total. -/
  crashes : ∀ crash, r = .error (.crash crash) →
    crash = .text "Multiplication overflowed" ∧ OutOfRange (t.price.value * t.quantity.value)
  failed : ∀ f, r = .error f → w.Spared w'

/-- The total of an order cannot be told exactly if it is out of range. -/
theorem orderOf_error_iff_outOfRange {id : String} :
    (∃ crash, orderOf t id now = .error crash) ↔ OutOfRange (t.price.value * t.quantity.value) := by
  rw [← Decimal.fails_mul_iff]
  exact exists_congr fun crash => orderOf_eq_error_iff

theorem crash_of_orderOf {id : String} {crash : Crash} (h : orderOf t id now = .error crash) :
    crash = .text "Multiplication overflowed" := by
  have hmul := orderOf_eq_error_iff.mp h
  unfold Decimal.mul Decimal.orOverflow at hmul
  split at hmul
  · cases hmul
  · cases hmul
    rfl

theorem asked_of_quotes {price : Decimal} {feed : Http.Client} (h : w.Quotes marketId price)
    (hf : w.paper.feed = some feed) (now : Timestamp) : ∃ url,
    Http.Url.parse (feed.address (feedPath marketId)) = .ok url ∧
    ((Paper.price marketId).run.run now w).2.link = { w.link with
      replies := w.link.replies.tail
      requests := w.link.requests ++ [{ method := .get, path := url.path }] } := by
  rcases h with ⟨hnone, -⟩ | @⟨feed', url, reply, hfeed, hreach, -, -, -, -⟩
  · cases hf.symm.trans hnone
  · cases hf.symm.trans hfeed
    have hserves : w.link.Serves (feed.address (feedPath marketId)) url :=
      ⟨hreach.parse, hreach.isHttp, hreach.up⟩
    have htold : (Paper.price marketId).run.run now w = _ := run_price_of_feed hf
    refine ⟨url, hreach.parse, ?_⟩
    rw [htold]
    dsimp only
    rw [hserves.asked]
    rfl

theorem places_of_error {f : Fault} (ht : Acceptable t)
    (h : (price t.marketId).run.run now w = (.error f, w')) : Places t w (.error f) w' where
  refused hno := absurd ht hno
  succeeds _ := by
    refine iff_of_false nofun ?_
    rintro ⟨⟨price, hquotes⟩, -⟩
    have hgives : ((Paper.price t.marketId).run.run now w).1 = _ := gives_price_iff.mpr hquotes
    rw [h] at hgives
    cases hgives
  asked := nofun
  crashes crash hf := by
    cases hf
    have hno : ¬ (Paper.price t.marketId).Crashes now w := not_crashes_price t.marketId
    exact absurd ⟨crash, by rw [h]⟩ hno
  failed _ _ := by
    have hspared := spared_price now t.marketId w
    rwa [h] at hspared

theorem places_of_price {p : Decimal} (ht : Acceptable t)
    (h : (price t.marketId).run.run now w = (.ok p, w')) (id : String) :
    Places t w ((enter id t).run.run now w').1 ((enter id t).run.run now w').2 := by
  have hgives : (Paper.price t.marketId).Gives now w p := congrArg Prod.fst h
  have hquotes : w.Quotes t.marketId p := gives_price_iff.mp hgives
  rw [run_enter]
  cases ho : orderOf t id now with
  | ok o =>
    have hfits : ¬ OutOfRange (t.price.value * t.quantity.value) := by
      rw [← orderOf_error_iff_outOfRange, ho]
      exact nofun
    refine ⟨fun hno => absurd ht hno, fun _ => iff_of_true ⟨id, rfl⟩ ⟨⟨p, hquotes⟩, hfits⟩,
      fun id' feed _ hf => ?_, nofun, nofun⟩
    have hasked := asked_of_quotes hquotes hf now
    rwa [h] at hasked
  | error crash =>
    have hover : OutOfRange (t.price.value * t.quantity.value) :=
      orderOf_error_iff_outOfRange.mp ⟨crash, ho⟩
    refine ⟨fun hno => absurd ht hno, fun _ => iff_of_false nofun fun hfits => hfits.2 hover,
      nofun, fun c hc => ?_, fun _ _ => ?_⟩
    · cases hc
      exact ⟨crash_of_orderOf ho, hover⟩
    · have hspared := spared_price now t.marketId w
      rwa [h] at hspared

/-- **What placing an order comes to**, in any world. -/
theorem places_run (t : Ticket) (now : Timestamp) (w : World) :
    Places t w ((place t).run.run now w).1 ((place t).run.run now w).2 := by
  by_cases ht : Acceptable t
  · obtain ⟨r, w', hprice⟩ : ∃ r w', (price t.marketId).run.run now w = (r, w') := ⟨_, _, rfl⟩
    cases r with
    | error f =>
      rw [run_place_of_error ht hprice]
      exact places_of_error ht hprice
    | ok p =>
      rw [run_place_of_price ht hprice]
      exact places_of_price ht hprice _
  · rw [run_place_of_refused ht]
    exact ⟨fun _ => ⟨rfl, rfl⟩, fun h => absurd h ht, nofun, nofun,
      fun _ _ => ⟨⟨_, rfl⟩, fun _ => rfl, fun _ => rfl⟩⟩

/-! ## While others act -/

namespace Desk

variable {d d' : Desk} {a : Act} {σ : Nat → Act} {k n n' : Nat} {deeds : List Deed}

/-- What a call to place an order has come to, it has come to for good. -/
theorem placed_act {r : Except Fault String} (hk : d.calls[k]? = some (.placed t r)) (a : Act) :
    (d.act a).calls[k]? = some (.placed t r) := by
  have hset {j : Nat} {s s' : Stage} (hj : d.calls[j]? = some s) (hs : s ≠ .placed t r) :
      (d.calls.set j s')[k]? = some (.placed t r) := by
    refine (getElem?_set hj).mpr (.inr ⟨?_, hk⟩)
    rintro rfl
    exact hs (Option.some.inj (hj.symm.trans hk))
  cases a with
  | place | ask | cancel | list => exact getElem?_concat.mpr (.inl hk)
  | relink => exact hk
  | goOn j now =>
    show (d.goOn j now).calls[k]? = _
    unfold goOn
    split
    · next hj => exact hset hj nofun
    · next hj => exact hset hj nofun
    · exact hk
  | enter j id now =>
    show (d.enter j id now).calls[k]? = _
    unfold enter
    split
    · next hj => exact hset hj nofun
    · exact hk

theorem placed_after {r : Except Fault String} (hle : n ≤ n')
    (hk : (d.after σ n).calls[k]? = some (.placed t r)) :
    (d.after σ n').calls[k]? = some (.placed t r) := by
  induction n', hle using Nat.le_induction with
  | base => exact hk
  | succ n' _ ih => exact placed_act ih (σ n')

/-- The act by which a call enters an order gives it the identifier. -/
theorem Deals.placed_of_entered {o : OpenOrder} (hm : Deals d a deeds d')
    (ho : .entered k o ∈ deeds) : ∃ t, d'.calls[k]? = some (.placed t (.ok o.id)) := by
  cases hm with
  | begins | relinks | holds | goesOn | overflows | lists => cases ho
  | cancels => cases List.mem_singleton.mp ho
  | enters hk horder =>
    cases List.mem_singleton.mp ho
    obtain ⟨rfl, -⟩ := of_orderOf horder
    exact ⟨_, (getElem?_set hk).mpr (.inl ⟨rfl, rfl⟩)⟩

/-- The act by which a call fails to place an order leaves the books. -/
theorem Deals.books_of_failed {f : Fault} (hm : Deals d a deeds d')
    (hk : d'.calls[k]? = some (.placed t (.error f)))
    (hnew : d.calls[k]? ≠ some (.placed t (.error f))) : d'.world.books = d.world.books := by
  cases hm with
  | begins | relinks | holds | overflows | lists => rfl
  | goesOn _ _ _ _ hw => exact hw
  | enters hj =>
    rcases (getElem?_set hj).mp hk with ⟨-, he⟩ | ⟨-, hk⟩
    · cases he
    · exact absurd hk hnew
  | cancels =>
    rcases getElem?_concat.mp hk with hk | ⟨-, he⟩
    · exact absurd hk hnew
    · cases he

/-- How calls that fail to place an order spare the books, whatever their callers do. -/
structure SparesOrders (d : Desk) (σ : Nat → Act) : Prop where
  /-- At the moment at which a call fails, the orders stay as they are. -/
  fails : ∀ (n k : Nat) (t : Ticket) (f : Fault),
    (d.after σ n).calls[k]? ≠ some (.placed t (.error f)) →
    (d.after σ (n + 1)).calls[k]? = some (.placed t (.error f)) →
    (d.after σ (n + 1)).orders = (d.after σ n).orders
  /-- A call that has failed has entered no order, and never will. -/
  failed : ∀ (n k : Nat) (t : Ticket) (f : Fault),
    (d.after σ n).calls[k]? = some (.placed t (.error f)) →
    ∀ (n' : Nat) (o : OpenOrder), .entered k o ∉ d.history σ n'
  /-- Fees and funds never change, nor does the feed. -/
  setUp : ∀ n, (d.after σ n).world.setUp = d.world.setUp

theorem placed_of_entered (c : Config.Exchange) (w : World) (now : Timestamp) {o : OpenOrder}
    (ho : .entered k o ∈ (opened c w now).history σ n) :
    ∃ t, ((opened c w now).after σ n).calls[k]? = some (.placed t (.ok o.id)) := by
  induction n with
  | zero => cases ho
  | succ n ih =>
    rcases List.mem_append.mp ho with ho | ho
    · obtain ⟨t, hk⟩ := ih ho
      exact ⟨t, placed_act hk (σ n)⟩
    · exact (deals_after c w now σ n).placed_of_entered ho

theorem sparesOrders_after (c : Config.Exchange) (w : World) (now : Timestamp) (σ : Nat → Act) :
    SparesOrders (opened c w now) σ where
  fails n k t f hnew hk :=
    congrArg Prod.fst ((deals_after c w now σ n).books_of_failed hk hnew)
  failed n k t f hk n' o ho := by
    obtain ⟨t', hk'⟩ := placed_of_entered c w now ho
    -- Where both moments are past, the call would have come to two ends.
    have hboth := placed_after (Nat.le_max_left n n') hk
    cases hboth.symm.trans (placed_after (Nat.le_max_right n n') hk')
  setUp n := (setUp_after c w now σ n).trans (setUp_after c w now σ 0).symm

end Desk

/-! ## The whole of it -/

/-- **Placing an order** takes a look at the price, if the ticket is acceptable, and succeeds if
there is one and the total is no larger than a decimal can be. When it fails, it leaves no order
behind, and nothing else that shows; and so it is when many callers place their orders at the same
time. -/
theorem place_all_or_nothing (t : Ticket) (now : Timestamp) (w : World) :
    Places t w ((exchange.place t).run.run now w).1 ((exchange.place t).run.run now w).2 ∧
      ∀ (c : Config.Exchange) (now : Timestamp) (σ : Nat → Act),
        (Desk.opened c w now).SparesOrders σ :=
  ⟨places_run t now w, fun c now σ => Desk.sparesOrders_after c w now σ⟩

end TradingBot.Paper
