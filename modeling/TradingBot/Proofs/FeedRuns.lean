import TradingBot.Proofs.Watching

/-!
# Runs with a live feed

With a feed, what becomes of a run is in the replies to its requests. An execution asks for the
price of its market, and if it is told one and logs the order book, it asks a second time.

**Failing executions** (`Visit.Fails`). An execution fails if one of its requests is refused, or if
the order book is to be computed around a price that is too large for it. Network errors fail none,
however many there are and wherever they come.

**Theorem (`feedRun_after`).** A run raises an alert exactly if an execution fails, and the alert
says why. As long as none does, its cycles go on.
-/

namespace TradingBot

open Paper (Ask feedOf)

/-! ## Failing executions -/

/-- The execution fails for one of its requests. -/
inductive Visit.Fails (v : Visit Ask) : Fatal → Prop
  | refused {ask : Ask} {detail : String} : ask ∈ v.heard → ask.answer = .error (.api detail) →
      Fails v (MarketWatch.refusal v.marketId detail)
  | tooLarge {first book : Ask} {price : Decimal} : v.heard = [first, book] →
      book.answer = .ok price → Paper.AsksOverflow price → Fails v MarketWatch.overflow

namespace MarketWatch

/-- The requests of one execution: one for the price of its market, and a second one for the order
book, if it is logged and the first one was answered with a price. -/
inductive Requests (address : String) (logsBook : Bool) : List Ask → Prop
  | missed {e : ApiError} : Requests address logsBook [⟨address, .error e⟩]
  | seen {price : Decimal} : logsBook = false → Requests address logsBook [⟨address, .ok price⟩]
  | browsed {price : Decimal} {look : Except ApiError Decimal} : logsBook = true →
      Requests address logsBook [⟨address, .ok price⟩, ⟨address, look⟩]

variable {c : Config.Exchange} {feed : Http.Client} {marketId : String} {logsBook : Bool}
  {heard : List Ask} {r : Except StrategyFault Unit}

theorem Watched.requests (hw : Watched c marketId logsBook heard r) (hf : feedOf c = some feed) :
    Requests (feed.address (Paper.feedPath marketId)) logsBook heard := by
  cases hw with
  | missed h =>
    rw [h.of_feed hf]
    exact .missed
  | seen hb h =>
    rw [h.of_feed hf]
    exact .seen hb
  | browsed hb h h' =>
    rw [h.of_feed hf, h'.of_feed hf]
    exact .browsed hb

/-- **With a feed, an execution goes well** unless one of its requests fails it. -/
theorem Watched.fails_iff (hw : Watched c marketId logsBook heard r) (hf : feedOf c = some feed)
    {f : Fatal} : Visit.Fails ⟨marketId, heard, r⟩ f ↔
      ∃ fault, r = .error fault ∧ Engine.fatalOf fault = f := by
  -- An execution asks the feed once, or twice if it looks at the book. Only the last answer can
  -- fail it: a first one that does is the last.
  cases hw with
  | @missed asked e h =>
    obtain rfl := h.of_feed hf
    constructor
    · rintro (⟨hask, hans⟩ | ⟨hheard, -, -⟩)
      · cases List.mem_singleton.mp hask
        cases hans
        exact ⟨_, rfl, rfl⟩
      · cases hheard
    · rintro ⟨fault, herr, rfl⟩
      obtain ⟨detail, rfl, hfatal⟩ := fatal_of_price herr
      rw [hfatal]
      exact .refused (List.mem_singleton_self _) rfl
  | seen hb h =>
    obtain rfl := h.of_feed hf
    constructor
    · rintro (⟨hask, hans⟩ | ⟨hheard, -, -⟩)
      · cases List.mem_singleton.mp hask
        cases hans
      · cases hheard
    · rintro ⟨fault, herr, -⟩
      cases herr
  | @browsed asked asked' price look hb h h' =>
    obtain rfl := h.of_feed hf
    obtain rfl := h'.of_feed hf
    constructor
    · rintro (⟨hask, hans⟩ | ⟨hheard, hans, hasks⟩)
      · rcases List.mem_pair.mp hask with rfl | rfl
        · cases hans
        · obtain rfl := hans
          exact ⟨_, rfl, rfl⟩
      · cases hheard
        obtain rfl := hans
        exact verdict_of_asksOverflow marketId hasks
    · rintro ⟨fault, herr, rfl⟩
      rcases fatal_of_book herr with ⟨detail, rfl, hfatal⟩ | ⟨price', rfl, hasks, hfatal⟩
      · rw [hfatal]
        exact .refused (List.mem_pair.mpr (.inr rfl)) rfl
      · rw [hfatal]
        exact .tooLarge rfl rfl hasks

end MarketWatch

/-! ## Runs with a feed -/

section

variable {ω ς : Type} {slot : Program.Slot ω Paper.World} {put : MarketWatch → ς}
  {get? : ς → Option MarketWatch} {s : Engine.Setup ω ς} {c : Config} {feed : Http.Client} {w : ω}
  {σ : Schedule ω} {n : Nat}

open Engine Trace

theorem Bundled.fails_iff (h : Bundled slot put get? s c) (hσ : Untouched slot (fresh s w) σ)
    (hf : feedOf c.exchange = some feed) {v : Visit Ask} (hv : v ∈ (fresh s w).watches slot σ n)
    {f : Fatal} : v.Fails f ↔ ∃ fault, v.result = .error fault ∧ fatalOf fault = f := by
  obtain ⟨m, -, hid, hwatched⟩ := h.watched hσ n v hv
  rw [← hid] at hwatched
  exact hwatched.fails_iff hf

theorem Bundled.alerts_of_fails (h : Bundled slot put get? s c) (hσ : Untouched slot (fresh s w) σ)
    (hf : feedOf c.exchange = some feed) {v : Visit Ask} (hv : v ∈ (fresh s w).watches slot σ n)
    {f : Fatal} (hfail : v.Fails f) :
    ((fresh s w).after σ n).alerts = [(Fatal.subject, f.body)] := by
  obtain ⟨fault, hr, rfl⟩ := (h.fails_iff hσ hf hv).mp hfail
  have hexec := (executed_mem_iff (MarketWatch.hear slot)).mpr ⟨v, hv, rfl, hr⟩
  rw [alerts_eq]
  exact (told_after h.loads w σ n).fitting.traced.endsAtFatal.alerts_of_raises hexec
    (Event.raises_fatalOf v.marketId fault)

theorem Bundled.exists_fails (h : Bundled slot put get? s c) (hσ : Untouched slot (fresh s w) σ)
    (hf : feedOf c.exchange = some feed)
    (hsuff : c.engine.WatchesBalance → c.engine.Suffices (seededBalances c)) {last : List Event}
    (hfail : Failed c last) (hsub : last ⊆ (fresh s w).history σ n) :
    ∃ v ∈ (fresh s w).watches slot σ n, ∃ f, v.Fails f := by
  cases hfail with
  | @fetch r f hw hr =>
    cases h.gives hσ n r (hsub (by simp))
    exact absurd hr (Event.not_raises_of_suffices (hsuff hw) f)
  | @execute gate done left id r f hg hids hr =>
    have hexec : .executed id r ∈ (fresh s w).history σ n := hsub (by simp)
    obtain ⟨v, hv, -, rfl⟩ := (executed_mem_iff (MarketWatch.hear slot)).mp hexec
    obtain ⟨fault, hfault, rfl⟩ := Score.fault_of_raises hr
    exact ⟨v, hv, _, (h.fails_iff hσ hf hv).mpr ⟨fault, hfault, rfl⟩⟩

/-- The run goes on until an execution fails. -/
structure FeedRun (slot : Program.Slot ω Paper.World) (c : Config) (feed : Http.Client)
    (e : Engine ω ς) (σ : Schedule ω) : Prop where
  /-- The executions of the run, in order, with what they came to. -/
  executions : ∀ n, (e.watches slot σ n).map (fun v => (v.marketId, v.result)) =
    (e.history σ n).filterMap Event.execution?
  /-- Each asks the feed about its market. -/
  requests : ∀ n, ∀ v ∈ e.watches slot σ n, ∃ m ∈ c.enabledMarkets, v.marketId = m.id ∧
    MarketWatch.Requests (feed.address (Paper.feedPath m.id)) (MarketWatch.logsBookAt c m) v.heard
  /-- On a fair schedule, each request belongs to an execution that comes to its end. -/
  answered : e.Fair σ → ∀ n run finished current left p,
    (e.after σ n).phase = .executing run finished current left p →
    ∀ ask ∈ (e.visits (MarketWatch.hear slot) σ n).pending,
      ∃ m, ∃ v ∈ e.watches slot σ m, v.marketId = current.market.id ∧ ask ∈ v.heard
  /-- An execution is successful if no request fails it. -/
  success : ∀ n, ∀ v ∈ e.watches slot σ n, v.result = .ok () ↔ ∀ f, ¬ v.Fails f
  alert_iff : ∀ n, (e.after σ n).alerts ≠ [] ↔ ∃ v ∈ e.watches slot σ n, ∃ f, v.Fails f
  alert : ∀ n, ∀ v ∈ e.watches slot σ n, ∀ f, v.Fails f →
    (e.after σ n).alerts = [(Fatal.subject, f.body)]
  /-- The start returns well after the alert. -/
  ends : e.Fair σ → ∀ n, (e.after σ n).alerts ≠ [] → ∃ m, n ≤ m ∧
    ∀ k, m ≤ k → ReturnedWell (e.after σ k)
  /-- Every fetch of balances gives the seeded ones. -/
  balances : ∀ n r, .balances r ∈ e.history σ n → r = .ok (seededBalances c)
  /-- All cycles before the one that fails execute the strategies of all enabled markets well, and
  so does the one under way, as far as it has come. -/
  steady : ∀ n, ∃ last,
    Steady c (seededBalances c) (e.history σ n) (e.after σ n).cycles last ∧
      (((e.after σ n).alerts = [] ∧ last <+: Trace.steady c (seededBalances c)) ∨
        ((e.after σ n).alerts ≠ [] ∧ Failed c last))
  /-- On a fair schedule the cycles go on until an execution fails, as long as the clock can show
  their deadlines. -/
  goesOn : e.Fair σ → (∃ n, (e.after σ n).phase.InLoop) → ∀ count, e.FirstDeadlinesFit σ count →
    ∃ n, count < (e.after σ n).cycles ∨ ∃ v ∈ e.watches slot σ n, ∃ f, v.Fails f

/-- **A run with a live feed** raises an alert exactly if an execution fails for one of its
requests. Network errors of the feed are none of its business. -/
theorem feedRun_after (h : Bundled slot put get? s c) (hf : feedOf c.exchange = some feed)
    (hsuff : c.engine.WatchesBalance → c.engine.Suffices (seededBalances c)) (w : ω)
    (σ : Schedule ω) (hσ : Untouched slot (fresh s w) σ) :
    FeedRun slot c feed (fresh s w) σ where
  executions n := visits_ended _ _ _ n
  requests n v hv := by
    obtain ⟨m, hm, hid, hwatched⟩ := h.watched hσ n v hv
    exact ⟨m, hm, hid, hwatched.requests hf⟩
  answered hfair n run finished current left p hp ask ha := heard_in_visit hfair hp ha
  success n v hv := by
    simp only [h.fails_iff hσ hf hv]
    cases v.result with
    | ok => simp
    | error fault => simp
  -- An alert stands for a cycle that has failed, and balances that suffice leave only executions to
  -- fail it.
  alert_iff n := by
    constructor
    · intro ha
      obtain ⟨last, hs, -, ⟨hnone, -⟩ | ⟨-, hfail⟩⟩ := h.steady hσ n
      · exact absurd hnone ha
      · exact h.exists_fails hσ hf hsuff hfail hs.last_subset
    · rintro ⟨v, hv, f, hfail⟩
      simp [h.alerts_of_fails hσ hf hv hfail]
  alert n v hv f hfail := h.alerts_of_fails hσ hf hv hfail
  ends hfair n ha := returns_of_alert h.loads hfair ha
  balances n r hr := h.gives hσ n r hr
  steady n := by
    obtain ⟨last, -, hsteady, hlast⟩ := h.steady hσ n
    exact ⟨last, hsteady, hlast⟩
  goesOn hfair hp count hfit := by
    obtain ⟨k, hk⟩ := hp
    obtain ⟨n, hn | ⟨last, hs, hfail⟩⟩ := exists_cycles h.loads hfair (h.undisturbed hσ) hk hfit
    · exact ⟨n, .inl hn⟩
    · exact ⟨n, .inr (h.exists_fails hσ hf hsuff hfail hs.last_subset)⟩

end

namespace Rehearsed

/-- A bot that watches two markets with a feed, and excuses a server that is not there. -/
def fed : Config where
  engine := config.engine
  exchange :=
    { name := "Paper", adapter := Registry.paperId, network := some { transientCodes := [503] }
      other := .ofList [("balance.BTC", "5"), (Paper.feedKey, "http://feed.test/")] }
  markets := config.markets ++
    [{ id := "ethusd", name := "ETH/USD", base := "ETH", counter := "USD", enabled := true
       strategyId := "watch" }]
  strategies :=
    [{ id := "watch", name := "Watch", className := Registry.marketWatchId
       items := .ofList [(MarketWatch.bookKey, "true")] }]

def reply (status : Http.Status) (text : String) : Http.Reply :=
  { status, body := text.toList.map fun c => UInt8.ofNat c.toNat }

def quote (last : String) : Http.Reply :=
  reply { code := 200 } ("\x7b\"last\": \"" ++ last ++ "\"\x7d")

/-- The server is not there for the first price of the first market, and then for its order book.
After that it breaks down. -/
def replies : List Http.Reply :=
  [reply { code := 503 } "", quote "10", quote "11", quote "100", reply { code := 503 } "",
    reply { code := 500 } "broken"]

theorem fed_suffices : fed.engine.Suffices (seededBalances fed) :=
  ⟨.ofNat 5, by decide +kernel, Decimal.le_iff_value_le.mp (by decide)⟩

theorem feedRun_rehearsed :
    let e := Engine.fresh (bundledSetup fed) { link := { replies } }
    let feed : Http.Client :=
      { base := "http://feed.test/", network := { transientCodes := [503] } }
    let network : Except ApiError Decimal := .error (.network "HTTP 503 Service Unavailable - ")
    let api : Except ApiError Decimal :=
      .error (.api "HTTP 500 Internal Server Error - broken")
    Bundled (.whole _) id some (bundledSetup fed) fed ∧ feedOf fed.exchange = some feed ∧
      fed.engine.Suffices (seededBalances fed) ∧ Untouched (.whole _) e turns ∧
      ((e.watches (.whole _) turns 60).map fun v => (v.marketId, v.heard.map (·.answer))) =
        [("btcusd", [network]), ("ethusd", [.ok (.ofNat 10), .ok (.ofNat 11)]),
          ("btcusd", [.ok (.ofNat 100), network]), ("ethusd", [api])] ∧
      (e.after turns 60).alerts = [(Fatal.subject, (MarketWatch.refusal "ethusd"
        "HTTP 500 Internal Server Error - broken").body)] ∧
      (∃ v ∈ e.watches (.whole _) turns 60, ∃ f, v.Fails f) ∧
      ∃ m, 60 ≤ m ∧ ∀ k, m ≤ k → Engine.ReturnedWell (e.after turns k) := by
  intro e feed network api
  have hb : Bundled (.whole _) id some (bundledSetup fed) fed :=
    CommandLine.bundled (by decide +kernel) rfl (by decide)
  have hfeed : feedOf fed.exchange = some feed := by decide +kernel
  have hidle : (e.after turns 60).phase = .idle := Engine.isIdle_iff.mp (by decide +kernel)
  have hfair : e.Fair turns :=
    Engine.fair_of_ended hidle (by decide +kernel) (by decide +kernel) turns_works
  have halerts : (e.after turns 60).alerts = [(Fatal.subject, (MarketWatch.refusal "ethusd"
      "HTTP 500 Internal Server Error - broken").body)] := by decide +kernel
  have hrun := feedRun_after hb hfeed (fun _ => fed_suffices) { link := { replies } } turns
    (untouched_turns e)
  have hne : (e.after turns 60).alerts ≠ [] := by simp [halerts]
  exact ⟨hb, hfeed, fed_suffices, untouched_turns e, by decide +kernel, halerts,
    (hrun.alert_iff 60).mp hne, hrun.ends hfair 60 hne⟩

end Rehearsed

end TradingBot
