import TradingBot.CommandLine.Session
import TradingBot.Proofs.Requests
import TradingBot.Proofs.SteadyRuns

/-!
# The market watch at the paper exchange

**Watching** (`MarketWatch.Watched`). What an execution in a market comes to, by what is asked for
it: a look at the price, and if that goes well and the settings ask for it, one at the order book.

**The contract** (`watchContract`). The bundled components keep it (`Bundled.kept`): the exchange
stays as its configuration seeds it, each strategy watches its own market with its own settings,
the balances are the seeded ones, and every visit comes to what it looks up. A bot on the command
line has these components (`CommandLine.bundled`).
-/

namespace TradingBot

open Paper (Ask LooksUp asks seeded feedOf bookOf)

/-! ## Strategies among others -/

/-- With nothing among the others, the strategy is as it was. -/
theorem Strategy.within_self {ω ς : Type} (s : Strategy ω ς) : s.within id some = s := by
  simp [within]

namespace MarketWatch

/-- What an exchange's fault means for an execution. -/
def faultOf (marketId : String) : Fault → Except StrategyFault Unit
  | .error (.network _) => .ok ()
  | .error (.api detail) =>
    .error (.failure s!"Exchange API error while watching market {marketId}: {detail}")
  | .crash c => .error (.crash c)

/-- What a look at the order book means for an execution. -/
def verdict (marketId : String) : Except Fault OrderBook → Except StrategyFault Unit
  | .ok _ => .ok ()
  | .error f => faultOf marketId f

/-- The alert about a market whose price the exchange refuses. -/
def refusal (marketId detail : String) : Fatal :=
  .strategy s!"Exchange API error while watching market {marketId}: {detail}"

/-- The alert about an order book that cannot be computed. -/
def overflow : Fatal := .unexpected "panic: Addition overflowed"

theorem fatal_of_price {marketId : String} {e : ApiError} {fault : StrategyFault}
    (h : faultOf marketId (.error e) = .error fault) :
    ∃ detail, e = .api detail ∧ Engine.fatalOf fault = refusal marketId detail := by
  cases e with
  | network => cases h
  | api detail =>
    cases h
    exact ⟨detail, rfl, rfl⟩

/-- A look at the order book is fatal where the price is refused or its asks are out of range. -/
theorem fatal_of_book {marketId : String} {look : Except ApiError Decimal} {fault : StrategyFault}
    (h : verdict marketId (bookOf marketId look) = .error fault) :
    (∃ detail, look = .error (.api detail) ∧
      Engine.fatalOf fault = refusal marketId detail) ∨
    ∃ price, look = .ok price ∧ Paper.AsksOverflow price ∧ Engine.fatalOf fault = overflow := by
  cases look with
  | error e =>
    obtain ⟨detail, rfl, hf⟩ := fatal_of_price h
    exact .inl ⟨detail, rfl, hf⟩
  | ok price =>
    rw [bookOf] at h
    cases hb : Paper.bookAround marketId price with
    | ok book =>
      rw [hb] at h
      cases h
    | error crash =>
      rw [hb] at h
      cases h
      refine .inr ⟨price, rfl, Paper.fails_bookAround_iff.mp ⟨crash, hb⟩, ?_⟩
      rw [Paper.crash_of_bookAround hb]
      rfl

/-- A look at a price whose asks are out of range is fatal. -/
theorem verdict_of_asksOverflow (marketId : String) {price : Decimal}
    (h : Paper.AsksOverflow price) :
    ∃ fault, verdict marketId (bookOf marketId (.ok price)) = .error fault ∧
      Engine.fatalOf fault = overflow := by
  obtain ⟨crash, hb⟩ : Fails (Paper.bookAround marketId price) := Paper.fails_bookAround_iff.mpr h
  refine ⟨.crash crash, by rw [bookOf, hb]; rfl, ?_⟩
  rw [Paper.crash_of_bookAround hb]
  rfl

/-- Whether the market watch of a market logs the order book. -/
def logsBookAt (c : Config) (m : Config.Market) : Bool :=
  match (c.strategy? m.strategyId).map readFlag with
  | some (.ok b) => b
  | _ => false

/-- What an execution in a market comes to, and what is asked for it. -/
inductive Watched (c : Config.Exchange) (marketId : String) (logsBook : Bool) :
    List Ask → Except StrategyFault Unit → Prop
  | missed {asked : List Ask} {e : ApiError} : LooksUp c marketId asked (.error e) →
      Watched c marketId logsBook asked (faultOf marketId (.error e))
  | seen {asked : List Ask} {price : Decimal} : logsBook = false →
      LooksUp c marketId asked (.ok price) → Watched c marketId logsBook asked (.ok ())
  | browsed {asked asked' : List Ask} {price : Decimal} {look : Except ApiError Decimal} :
      logsBook = true → LooksUp c marketId asked (.ok price) → LooksUp c marketId asked' look →
      Watched c marketId logsBook (asked ++ asked') (verdict marketId (bookOf marketId look))

/-- What an execution leaves of an instance. Without a feed, it keeps the seeded price if it goes
well. -/
structure Leaves (c : Config.Exchange) (marketId : String) (s : MarketWatch)
    (r : Except StrategyFault Unit × MarketWatch) : Prop where
  market : r.2.market = s.market
  logsBook : r.2.logsBook = s.logsBook
  lastPrice : r.1 = .ok () → feedOf c = none →
    ∃ price, (seeded c).seededPrice marketId = .ok price ∧ r.2.lastPrice = some price

variable {ω : Type} {slot : Program.Slot ω Paper.World} {c : Config.Exchange} {t : List Ask} {w : ω}

/-- An observer of the exchange in its part of the world. -/
def hear (slot : Program.Slot ω Paper.World) (line : LogLine) (w : ω) : List Ask :=
  asks line (slot.get w)

theorem hear_of_ne {level : LogLevel} {message : String} {fields : List (String × String)}
    (h : message ≠ "GET") : hear slot { level, message, fields } w = [] :=
  Paper.asks_of_ne level message fields (slot.get w) h

/-- The part of the world that the exchange has is as it was seeded. -/
def InPlace (slot : Program.Slot ω Paper.World) (c : Config.Exchange) (w : ω) : Prop :=
  (slot.get w).Seeded c

theorem ensures_judge {I : ω → Prop} {Q : List Ask → Except StrategyFault Unit → ω → Prop}
    {m : Market} (f : Fault) (hQ : Q t (faultOf m.id f) w) :
    (judge m f).Ensures (hear slot) I Q t w := by
  match f with
  | .error (.network detail) =>
    rw [judge, Program.ensures_bind, Program.ensures_tell, hear_of_ne (by decide), List.append_nil]
    exact Program.ensures_pure.mpr hQ
  | .error (.api detail) => exact Program.ensures_pure.mpr hQ
  | .crash c => exact Program.ensures_pure.mpr hQ

theorem ensures_watchBook {m : Market} {s : MarketWatch} (hw : InPlace slot c w) :
    (watchBook (Paper.exchange.zoom slot) m s).Ensures (hear slot) (InPlace slot c)
      (fun t' r w => InPlace slot c w ∧
        ((s.logsBook = false ∧ t' = t ∧ r = .ok ()) ∨ (s.logsBook = true ∧ ∃ asked look,
          LooksUp c m.id asked look ∧ t' = t ++ asked ∧ r = verdict m.id (bookOf m.id look))))
      t w := by
  unfold watchBook
  cases hb : s.logsBook with
  | false => exact Program.ensures_pure.mpr ⟨hw, .inl ⟨rfl, rfl, rfl⟩⟩
  | true =>
    rw [if_pos rfl, Program.ensures_bind]
    refine (Program.ensures_zoom (Paper.ensures_orderBook hw m.id)).mono fun t' r w' hr => ?_
    obtain ⟨hw', asked, look, hlook, rfl, rfl⟩ := hr
    cases hl : bookOf m.id look with
    | error f => exact ensures_judge f ⟨hw', .inr ⟨rfl, asked, look, hlook, rfl, by rw [hl]; rfl⟩⟩
    | ok book =>
      dsimp only
      rw [Program.ensures_bind, Program.ensures_tell, hear_of_ne (by decide), List.append_nil]
      exact Program.ensures_pure.mpr ⟨hw', .inr ⟨rfl, asked, look, hlook, rfl, by rw [hl]; rfl⟩⟩

/-- **An execution of the market watch** comes to what it looks up. -/
theorem ensures_execute {m : Market} {s : MarketWatch} (hm : s.market = some m)
    (hw : InPlace slot c w) :
    (execute (Paper.exchange.zoom slot) s).Ensures (hear slot) (InPlace slot c)
      (fun t r w => InPlace slot c w ∧ Watched c m.id s.logsBook t r.1 ∧ Leaves c m.id s r)
      [] w := by
  unfold execute
  rw [hm]
  dsimp only
  rw [watch, Program.ensures_bind]
  refine (Program.ensures_zoom (Paper.ensures_price hw m.id)).mono fun t r w' hr => ?_
  obtain ⟨hw', asked, look, hlook, rfl, rfl⟩ := hr
  -- After the look at the price: a refusal ends the execution, and with a price the order book may
  -- be looked at.
  cases look with
  | error e =>
    show Program.Ensures _ _ _ (judge m (.error e) >>= fun v => pure (v, s)) _ _
    rw [Program.ensures_bind]
    refine ensures_judge _ (Program.ensures_pure.mpr ⟨hw', .missed hlook, rfl, rfl, ?_⟩)
    intro hok hf
    cases e with
    | network detail => exact absurd (hlook.of_seeded hf) Paper.seededPrice_ne_network
    | api detail => cases hok
  | ok price =>
    show Program.Ensures _ _ _ (Program.tell _ _ _ >>= fun _ => _) _ _
    rw [Program.ensures_bind, Program.ensures_tell, hear_of_ne (by decide), List.append_nil,
      Program.ensures_bind]
    refine (ensures_watchBook hw').mono fun t' r w' hr => ?_
    obtain ⟨hw', ⟨hb, rfl, rfl⟩ | ⟨hb, asked', look, hlook', rfl, rfl⟩⟩ := hr
    · have hseen : Watched c m.id s.logsBook t' (.ok ()) := .seen hb hlook
      exact Program.ensures_pure.mpr
        ⟨hw', hseen, rfl, rfl, fun _ hf => ⟨price, hlook.of_seeded hf, rfl⟩⟩
    · have hbrowsed : Watched c m.id s.logsBook (t ++ asked') (verdict m.id (bookOf m.id look)) :=
        .browsed hb hlook hlook'
      generalize verdict m.id (bookOf m.id look) = v at hbrowsed ⊢
      cases v with
      | error f => exact Program.ensures_pure.mpr ⟨hw', hbrowsed, rfl, rfl, nofun⟩
      | ok u =>
        exact Program.ensures_pure.mpr
          ⟨hw', hbrowsed, rfl, rfl, fun _ hf => ⟨price, hlook.of_seeded hf, rfl⟩⟩

/-- The initialisation of the market watch keeps the market and whether the book is logged. -/
theorem ensures_init {x : Exchange ω} {m : Market} {settings : Config.Strategy}
    (hw : InPlace slot c w) :
    (init x m settings {}).Ensures (hear slot) (InPlace slot c)
      (fun _ r w => InPlace slot c w ∧ (r.1 = .ok () → r.2.market = some m ∧
        readFlag settings = .ok r.2.logsBook)) t w := by
  unfold init
  cases readFlag settings with
  | error e => exact Program.ensures_pure.mpr ⟨hw, nofun⟩
  | ok b =>
    rw [Program.ensures_bind, Program.ensures_tell]
    exact Program.ensures_pure.mpr ⟨hw, fun _ => ⟨rfl, rfl⟩⟩

end MarketWatch

/-! ## The contract -/

section

variable {ω ς : Type}

/-- The setup has the bundled components, the exchange in its part of the world and the market watch
with its states among others, and the configuration names no others. -/
structure Bundled (slot : Program.Slot ω Paper.World) (put : MarketWatch → ς)
    (get? : ς → Option MarketWatch) (s : Engine.Setup ω ς) (c : Config) : Prop where
  loads : s.source.load = .ok c
  paper : c.exchange.adapter = Registry.paperId
  adapter : s.registry.adapter? Registry.paperId = some (Paper.adapter.zoom slot)
  strategy : s.registry.strategy? Registry.marketWatchId =
    some (MarketWatch.strategy.within put get?)
  get_put : ∀ t, get? (put t) = some t
  watches : ∀ m ∈ c.enabledMarkets, ∀ settings, c.strategy? m.strategyId = some settings →
    settings.className = Registry.marketWatchId

/-- The strategy's last price is the seeded price of its market. -/
def HasSeen (get? : ς → Option MarketWatch) (c : Config) (y : Wired ω ς) : Prop :=
  ∃ price t, (seeded c.exchange).seededPrice y.market.id = .ok price ∧ get? y.state = some t ∧
    t.lastPrice = some price

def seededBalances (c : Config) : Balances := { available := (seeded c.exchange).available }

/-- What the bundled components ensure. -/
def watchContract (slot : Program.Slot ω Paper.World) (put : MarketWatch → ς)
    (get? : ς → Option MarketWatch) (c : Config) : Contract ω ς Ask where
  hear := MarketWatch.hear slot
  Raw w := (slot.get w).paper = {}
  SetUp := MarketWatch.InPlace slot c.exchange
  Ready y := y.strategy = MarketWatch.strategy.within put get? ∧ ∃ m ∈ c.enabledMarkets, ∃ t,
    y.market = Engine.marketOf m ∧ get? y.state = some t ∧ t.market = some y.market ∧
      t.logsBook = MarketWatch.logsBookAt c m
  Done y := feedOf c.exchange = none → HasSeen get? c y
  balances := seededBalances c
  Visited v := ∃ m ∈ c.enabledMarkets, v.marketId = m.id ∧
    MarketWatch.Watched c.exchange m.id (MarketWatch.logsBookAt c m) v.heard v.result

variable {slot : Program.Slot ω Paper.World} {put : MarketWatch → ς} {get? : ς → Option MarketWatch}
  {s : Engine.Setup ω ς} {c : Config}

/-- **The bundled components keep their contract.** -/
theorem Bundled.kept (h : Bundled slot put get? s c) :
    (watchContract slot put get? c).Kept s c (Paper.adapter.zoom slot) where
  loads := h.loads
  registered := by
    rw [h.paper]
    exact h.adapter
  fresh w := by
    show (slot.get (slot.set _ w)).paper = {}
    rw [slot.get_set]
    rfl
  setUp w hw := Program.ensures_zoom (Paper.ensures_initialise c.exchange hw)
  init m hm settings strategy hlist hreg w hw := by
    rw [h.watches m hm settings hlist] at hreg
    cases h.strategy.symm.trans hreg
    have hlogs {b : Bool} (hb : MarketWatch.readFlag settings = .ok b) :
        b = MarketWatch.logsBookAt c m := by
      rw [MarketWatch.logsBookAt, hlist, Option.map_some, hb]
    have hfresh : (get? (put {})).getD {} = {} := by rw [h.get_put]; rfl
    show Program.Ensures _ _ _
      (MarketWatch.init _ _ settings ((get? (put {})).getD {}) >>= fun r => pure (r.1, put r.2)) _ _
    rw [hfresh, Program.ensures_bind]
    refine (MarketWatch.ensures_init hw).mono fun t r w' hr => Program.ensures_pure.mpr ?_
    exact ⟨hr.1, fun hok => ⟨rfl, m, hm, r.2, rfl, h.get_put _, (hr.2 hok).1, hlogs (hr.2 hok).2⟩⟩
  fetch w hw := Program.ensures_zoom (Paper.ensures_balances hw)
  -- The strategy of the registry is the market watch within a larger state: `get?` and `put` lead
  -- there and back.
  execute y hy w hw := by
    obtain ⟨hstrategy, m, hm, t, hmarket, hget, hset, hlogs⟩ := hy
    have hstate : (get? y.state).getD {} = t := by rw [hget]; rfl
    rw [hstrategy]
    show Program.Ensures _ _ _
      (MarketWatch.execute _ ((get? y.state).getD {}) >>= fun r => pure (r.1, put r.2)) _ _
    rw [hstate, Program.ensures_bind]
    refine (MarketWatch.ensures_execute hset hw).mono fun heard r w' hr => ?_
    obtain ⟨hw', hwatched, hleaves⟩ := hr
    have hid : y.market.id = m.id := by rw [hmarket]; rfl
    rw [hid, hlogs] at hwatched
    refine Program.ensures_pure.mpr ⟨hw', ⟨m, hm, hid, hwatched⟩, fun hok => ⟨?_, fun hf => ?_⟩⟩
    · exact ⟨hstrategy, m, hm, r.2, hmarket, h.get_put _, hleaves.market.trans hset,
        hleaves.logsBook.trans hlogs⟩
    · obtain ⟨price, hseed, hlast⟩ := hleaves.lastPrice hok hf
      exact ⟨price, r.2, hseed, h.get_put _, hlast⟩

/-! ## Runs that nobody meddles with -/

/-- Nobody requests a stop, and whatever changes in the world by itself, the exchange stays as it
is. The link to the feed may change in any way. -/
structure Untouched (slot : Program.Slot ω Paper.World) (e : Engine ω ς) (σ : Schedule ω) :
    Prop where
  stop : ∀ n, σ n ≠ .requestStop
  paper : ∀ n w, σ n = .change w → (slot.get w).paper = (slot.get (e.after σ n).world).paper

theorem Untouched.spared {e : Engine ω ς} {σ : Schedule ω} (h : Untouched slot e σ) :
    (watchContract slot put get? c).Spared e σ where
  stop := h.stop
  raw n w hw hraw := (h.paper n w hw).trans hraw
  setUp n w hw hset := by
    obtain ⟨hinit, prices, hp, hn⟩ := hset
    exact ⟨hinit, prices, (h.paper n w hw).trans hp, hn⟩

/-- The executions of a run that have ended, with what was asked for them. -/
def Engine.watches (slot : Program.Slot ω Paper.World) (e : Engine ω ς) (σ : Schedule ω) (n : Nat) :
    List (Visit Ask) :=
  (e.visits (MarketWatch.hear slot) σ n).ended

section

variable {w : ω} {σ : Schedule ω}

open Engine

theorem Bundled.holds (h : Bundled slot put get? s c) (hσ : Untouched slot (fresh s w) σ)
    (n : Nat) : (watchContract slot put get? c).Holds (Paper.adapter.zoom slot)
      ((fresh s w).after σ n) ((fresh s w).visits (MarketWatch.hear slot) σ n) :=
  (Contract.holds_after h.kept w σ hσ.spared n).1

theorem Bundled.gives (h : Bundled slot put get? s c) (hσ : Untouched slot (fresh s w) σ) (n : Nat)
    (r : Except Fault Balances) (hr : .balances r ∈ (fresh s w).history σ n) :
    r = .ok (seededBalances c) :=
  (Contract.holds_after h.kept w σ hσ.spared n).2 _ hr

theorem Bundled.undisturbed (h : Bundled slot put get? s c) (hσ : Untouched slot (fresh s w) σ) :
    ∀ n, .stopSeen ∉ (fresh s w).history σ n :=
  fun n hm => (Contract.holds_after h.kept w σ hσ.spared n).2 _ hm

/-- Completed cycles are steady ones. What comes after them is the beginning of one, or has failed
and raised the alert. -/
theorem Bundled.steady (h : Bundled slot put get? s c) (hσ : Untouched slot (fresh s w) σ)
    (n : Nat) : ∃ last,
      Trace.Splits c ((fresh s w).history σ n) ((fresh s w).after σ n).cycles last ∧
      Trace.Steady c (seededBalances c) ((fresh s w).history σ n) ((fresh s w).after σ n).cycles
        last ∧ ((((fresh s w).after σ n).alerts = [] ∧ last <+: Trace.steady c (seededBalances c)) ∨
          (((fresh s w).after σ n).alerts ≠ [] ∧ Trace.Failed c last)) := by
  obtain ⟨last, hs, hlast⟩ := (told_after h.loads w σ n).fitting.traced
  have hgives : Trace.Gives (seededBalances c) ((fresh s w).history σ n) := h.gives hσ n
  have hno : .stopSeen ∉ last := fun hm => h.undisturbed hσ n (hs.last_subset hm)
  have hfail := alerts_ne_nil_iff h.loads hs hlast
  refine ⟨last, hs, hs.steady hgives, ?_⟩
  by_cases ha : ((fresh s w).after σ n).alerts = []
  · have hprefix := hlast.prefix_steady (hgives.mono hs.last_subset) hno
    exact .inl ⟨ha, hprefix.resolve_right fun hf => hfail.mpr hf ha⟩
  · exact .inr ⟨ha, hfail.mp ha⟩

theorem Bundled.watched (h : Bundled slot put get? s c) (hσ : Untouched slot (fresh s w) σ)
    (n : Nat) (v : Visit Ask) (hv : v ∈ (fresh s w).watches slot σ n) :
    ∃ m ∈ c.enabledMarkets, v.marketId = m.id ∧
      MarketWatch.Watched c.exchange m.id (MarketWatch.logsBookAt c m) v.heard v.result :=
  (h.holds hσ n).visited v hv

end

end

/-! ## Bots on the command line -/

namespace CommandLine

/-- A bot on the command line has the bundled components. -/
theorem bundled {c : Config} {source : Config.Source} {alerter : Alerter Paper.World}
    {epoch : Timestamp} (hl : source.load = .ok c) (hp : c.exchange.adapter = Registry.paperId)
    (hw : ∀ t ∈ c.strategies, t.className = Registry.marketWatchId) :
    Bundled (.whole _) id some { source, registry, alerter, epoch } c where
  loads := hl
  paper := hp
  adapter := rfl
  strategy := by
    rw [Strategy.within_self]
    rfl
  get_put _ := rfl
  watches _ _ t ht := hw t (Config.of_strategy? ht).1

end CommandLine

namespace Rehearsed

/-- A bot on the command line that writes its alerts to the log. -/
def bundledSetup (c : Config) : Engine.Setup Paper.World MarketWatch where
  source := c.toSource
  registry := CommandLine.registry
  alerter := Alerter.toLog

/-- A start, and then a second after every eleven moves. -/
def turns : Schedule Paper.World := fun n =>
  if n = 0 then .start else if n % 12 = 0 then .pass 1000 else .work

theorem untouched_turns (e : Engine Paper.World MarketWatch) :
    Untouched (.whole Paper.World) e turns where
  stop n := by
    unfold turns
    split_ifs <;> nofun
  paper n w h := by
    unfold turns at h
    split_ifs at h

theorem turns_works (k : Nat) : ∃ n, k ≤ n ∧ turns n = .work := by
  refine ⟨12 * k + 1, by omega, ?_⟩
  rw [turns, if_neg (by omega), if_neg (by omega)]

end Rehearsed

end TradingBot
