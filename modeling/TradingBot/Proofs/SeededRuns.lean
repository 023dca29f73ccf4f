import TradingBot.Proofs.Watching

/-!
# Runs at seeded prices

Without a feed, everything that a cycle depends on is in the configuration: the balances that the
exchange seeds, and for each enabled market its seeded price.

**Flaws** (`FirstFlaw`). The first thing in a cycle that is fatal: the balances, or the price of a
market, which may be missing or too large for the order book that is logged. A configuration without
one is flawless (`Flawless`).

**Theorem (`seeded_fails_at_once_or_never`).** A run of a flawless configuration never raises an
alert, and each of its cycles repeats the first one. In any other run the first cycle ends with the
alert about the first flaw.
-/

namespace TradingBot

open Paper (Ask seeded feedOf)

/-! ## Flaws -/

namespace MarketWatch

/-- What is fatal about the seeded price of a market. -/
inductive Flaw (c : Config) (m : Config.Market) : Fatal → Prop
  | unknown {detail : String} : (seeded c.exchange).seededPrice m.id = .error (.api detail) →
      Flaw c m (refusal m.id detail)
  | tooLarge {price : Decimal} : logsBookAt c m = true →
      (seeded c.exchange).seededPrice m.id = .ok price → Paper.AsksOverflow price →
      Flaw c m overflow

/-- The seeded price of a market is all that its market watch needs. -/
def Priced (c : Config) (m : Config.Market) : Prop :=
  ∃ price, (seeded c.exchange).seededPrice m.id = .ok price ∧
    (logsBookAt c m = true → ¬ Paper.AsksOverflow price)

variable {c : Config} {m : Config.Market} {heard : List Ask} {r : Except StrategyFault Unit}

theorem Flaw.not_priced {f : Fatal} (hf : Flaw c m f) : ¬ Priced c m := by
  rintro ⟨price, hp, hbook⟩
  cases hf with
  | unknown hp' => cases hp.symm.trans hp'
  | tooLarge hb hp' hasks =>
    cases hp.symm.trans hp'
    exact hbook hb hasks

/-- **Without a feed**, an execution goes well where the seeded price is all that it needs, and
fails for a flaw. -/
theorem Watched.of_seeded (hw : Watched c.exchange m.id (logsBookAt c m) heard r)
    (hf : feedOf c.exchange = none) :
    (r = .ok () → Priced c m) ∧ ∀ fault, r = .error fault → Flaw c m (Engine.fatalOf fault) := by
  cases hw with
  | @missed asked e h =>
    cases e with
    | network detail => exact absurd (h.of_seeded hf) Paper.seededPrice_ne_network
    | api detail =>
      refine ⟨nofun, ?_⟩
      rintro fault ⟨⟩
      exact .unknown (h.of_seeded hf)
  | seen hb h => exact ⟨fun _ => ⟨_, h.of_seeded hf, fun hb' => by simp [hb] at hb'⟩, nofun⟩
  | @browsed asked asked' price look hb h h' =>
    have hseed := h.of_seeded hf
    cases (h'.of_seeded hf).symm.trans hseed
    refine ⟨fun hok => ⟨price, hseed, fun _ hasks => ?_⟩, fun fault hfault => ?_⟩
    · obtain ⟨fault, herr, -⟩ := verdict_of_asksOverflow m.id hasks
      cases herr.symm.trans hok
    · obtain ⟨detail, hl, -⟩ | ⟨price', hl, hasks, hfatal⟩ := fatal_of_book hfault
      · cases hl
      · cases hl
        rw [hfatal]
        exact .tooLarge hb hseed hasks

end MarketWatch

open MarketWatch (Flaw Priced)

/-- The seeded balances and prices are all that a cycle needs. -/
structure Flawless (c : Config) : Prop where
  balances : c.engine.WatchesBalance → c.engine.Suffices (seededBalances c)
  prices : ∀ m ∈ c.enabledMarkets, Priced c m

/-- The first thing in a cycle that is fatal. -/
inductive FirstFlaw (c : Config) : Fatal → Prop
  | balances {f : Fatal} : c.engine.WatchesBalance →
      Event.Raises c.engine (.balances (.ok (seededBalances c))) f → FirstFlaw c f
  | price {f : Fatal} {before behind : List Config.Market} {m : Config.Market} :
      (c.engine.WatchesBalance → c.engine.Suffices (seededBalances c)) →
      c.enabledMarkets = before ++ m :: behind → (∀ m' ∈ before, Priced c m') → Flaw c m f →
      FirstFlaw c f

theorem FirstFlaw.not_flawless {c : Config} {f : Fatal} (hf : FirstFlaw c f) : ¬ Flawless c := by
  intro h
  cases hf with
  | balances hw hr => exact Event.not_raises_of_suffices (h.balances hw) f hr
  | price _ hm _ hflaw => exact hflaw.not_priced (h.prices _ (by simp [hm]))

/-! ## Runs without a feed -/

section

variable {ω ς : Type} {slot : Program.Slot ω Paper.World} {put : MarketWatch → ς}
  {get? : ς → Option MarketWatch} {s : Engine.Setup ω ς} {c : Config} {w : ω} {σ : Schedule ω}
  {n : Nat}

open Engine Trace

/-- What an execution comes to in an enabled market, it comes to by watching it. -/
theorem Bundled.executed (h : Bundled slot put get? s c) (hσ : Untouched slot (fresh s w) σ)
    {m : Config.Market} (hm : m ∈ c.enabledMarkets) {r : Except StrategyFault Unit}
    (hr : .executed m.id r ∈ (fresh s w).history σ n) :
    ∃ heard, MarketWatch.Watched c.exchange m.id (MarketWatch.logsBookAt c m) heard r := by
  obtain ⟨v, hv, hid, rfl⟩ := (executed_mem_iff (MarketWatch.hear slot)).mp hr
  obtain ⟨m', hm', hid', hwatched⟩ := h.watched hσ n v hv
  -- No two markets share an identifier.
  have hnodup := (Config.Source.valid_of_load h.loads).2.2.2.1
  have hmem {x : Config.Market} (hx : x ∈ c.enabledMarkets) : x ∈ c.markets :=
    List.mem_of_mem_filter hx
  cases List.inj_on_of_nodup_map hnodup (hmem hm') (hmem hm) (hid'.symm.trans hid)
  exact ⟨v.heard, hwatched⟩

/-- A run that has completed a cycle is one of a flawless configuration. -/
theorem Bundled.flawless (h : Bundled slot put get? s c) (hσ : Untouched slot (fresh s w) σ)
    (hf : feedOf c.exchange = none) (h0 : 0 < ((fresh s w).after σ n).cycles) : Flawless c := by
  obtain ⟨last, hs, -⟩ := (told_after h.loads w σ n).fitting.traced
  obtain ⟨cycle, hc, hsub⟩ := hs.exists_completed h0
  have hgives : Gives (seededBalances c) cycle := fun r hr => h.gives hσ n r (hsub hr)
  refine ⟨hc.suffices hgives, fun m hm => ?_⟩
  have hexec : .executed m.id (.ok ()) ∈ cycle := by
    rw [hc.eq_steady hgives]
    exact List.mem_append_left _ (List.mem_append_right _
      (executed_mem_executions (List.mem_map_of_mem hm)))
  obtain ⟨heard, hwatched⟩ := h.executed hσ hm (hsub hexec)
  exact (hwatched.of_seeded hf).1 rfl

theorem Bundled.firstFlaw (h : Bundled slot put get? s c) (hσ : Untouched slot (fresh s w) σ)
    (hf : feedOf c.exchange = none) {last : List Event} (hfail : Failed c last)
    (hsub : last ⊆ (fresh s w).history σ n) :
    ∃ ev ∈ last, ∃ f, ev.Raises c.engine f ∧ FirstFlaw c f := by
  have hgives : Gives (seededBalances c) last := fun r hr => h.gives hσ n r (hsub hr)
  cases hfail with
  | @fetch r f hw hr =>
    cases hgives r (by simp)
    exact ⟨_, by simp, f, hr, .balances hw hr⟩
  | @execute gate done left id r f hg hids hr =>
    refine ⟨.executed id r, by simp, f, hr, ?_⟩
    have hsuff := hg.suffices (hgives.mono fun ev hm => by simp [hm])
    obtain ⟨before, rest, hm, rfl, hrest⟩ := List.map_eq_append_iff.mp hids.symm
    obtain ⟨m, behind, rfl, rfl, -⟩ := List.map_eq_cons_iff.mp hrest
    refine .price hsuff hm (fun m' hm' => ?_) ?_
    · have hexec : .executed m'.id (.ok ()) ∈ (fresh s w).history σ n :=
        hsub (List.mem_append_left _ (List.mem_append_right _
          (executed_mem_executions (List.mem_map_of_mem hm'))))
      obtain ⟨heard, hwatched⟩ := h.executed hσ (by simp [hm, hm']) hexec
      exact (hwatched.of_seeded hf).1 rfl
    · have hexec : .executed m.id r ∈ (fresh s w).history σ n := hsub (by simp)
      obtain ⟨heard, hwatched⟩ := h.executed hσ (by simp [hm]) hexec
      obtain ⟨fault, rfl, rfl⟩ := Score.fault_of_raises hr
      exact (hwatched.of_seeded hf).2 fault rfl

/-- The run never raises an alert: all its cycles are the same. -/
structure StaysWell (get? : ς → Option MarketWatch) (c : Config) (e : Engine ω ς)
    (σ : Schedule ω) : Prop where
  alerts : ∀ n, (e.after σ n).alerts = []
  /-- All completed cycles have passed the check of the seeded balances and executed the strategies
  of all enabled markets well. What is under way is the beginning of such a cycle. -/
  steady : ∀ n, ∃ last,
    Steady c (seededBalances c) (e.history σ n) (e.after σ n).cycles last ∧
      last <+: Trace.steady c (seededBalances c)
  wired : ∀ n, (e.after σ n).phase.InLoop → idsOf (e.after σ n).phase.wired = c.marketIds
  /-- From the first completed cycle on, the last prices are the seeded ones. -/
  seen : ∀ n, 0 < (e.after σ n).cycles → ∀ y ∈ (e.after σ n).phase.wired, HasSeen get? c y
  /-- On a fair schedule the cycles go on as long as the clock can show their deadlines. -/
  goesOn : e.Fair σ → (∃ n, (e.after σ n).phase.InLoop) → ∀ count, e.FirstDeadlinesFit σ count →
    ∃ n, count < (e.after σ n).cycles

/-- The run completes no cycle: the first one raises the alert about the first flaw. -/
structure FailsAtOnce (c : Config) (e : Engine ω ς) (σ : Schedule ω) : Prop where
  cycles : ∀ n, (e.after σ n).cycles = 0
  alert : e.Fair σ → (∃ n, (e.after σ n).phase.InLoop) →
    ∃ f, FirstFlaw c f ∧ ∃ n, ∀ m, n ≤ m → (e.after σ m).alerts = [(Fatal.subject, f.body)]

theorem Bundled.not_hasFailed (h : Bundled slot put get? s c) (hσ : Untouched slot (fresh s w) σ)
    (hf : feedOf c.exchange = none) (hc : Flawless c) (n : Nat) :
    ¬ HasFailed c ((fresh s w).after σ n) ((fresh s w).history σ n) := by
  rintro ⟨last, hs, hfail⟩
  obtain ⟨-, -, f, -, hflaw⟩ := h.firstFlaw hσ hf hfail hs.last_subset
  exact hflaw.not_flawless hc

theorem Bundled.staysWell (h : Bundled slot put get? s c) (hσ : Untouched slot (fresh s w) σ)
    (hf : feedOf c.exchange = none) (hc : Flawless c) : StaysWell get? c (fresh s w) σ where
  alerts n := by
    obtain ⟨last, hs, -, ⟨ha, -⟩ | ⟨-, hfail⟩⟩ := h.steady hσ n
    · exact ha
    · exact absurd ⟨last, hs, hfail⟩ (h.not_hasFailed hσ hf hc n)
  steady n := by
    obtain ⟨last, hs, hsteady, ⟨-, hprefix⟩ | ⟨-, hfail⟩⟩ := h.steady hσ n
    · exact ⟨last, hsteady, hprefix⟩
    · exact absurd ⟨last, hs, hfail⟩ (h.not_hasFailed hσ hf hc n)
  wired n hp := (told_after h.loads w σ n).fitting.idsOf_wired hp
  seen n h0 y hy := (h.holds hσ n).done h0 y hy hf
  goesOn hfair hp count hfit := by
    obtain ⟨k, hk⟩ := hp
    obtain ⟨n, hn | hfail⟩ := exists_cycles h.loads hfair (h.undisturbed hσ) hk hfit
    · exact ⟨n, hn⟩
    · exact absurd hfail (h.not_hasFailed hσ hf hc n)

theorem Bundled.failsAtOnce (h : Bundled slot put get? s c) (hσ : Untouched slot (fresh s w) σ)
    (hf : feedOf c.exchange = none) (hc : ¬ Flawless c) : FailsAtOnce c (fresh s w) σ := by
  have h0 (n : Nat) : ((fresh s w).after σ n).cycles = 0 :=
    Nat.eq_zero_of_not_pos fun hpos => hc (h.flawless hσ hf hpos)
  refine ⟨h0, fun hfair hp => ?_⟩
  obtain ⟨k, hk⟩ := hp
  obtain ⟨n, -, hend | ⟨last, hs, hfail⟩⟩ := cycle_comes h.loads hfair (h.undisturbed hσ) hk
  · rw [h0, h0] at hend
    cases hend
  · obtain ⟨ev, hev, f, hr, hflaw⟩ := h.firstFlaw hσ hf hfail hs.last_subset
    have hends := (told_after h.loads w σ (n + 1)).fitting.traced.endsAtFatal
    have ha := hends.alerts_of_raises (hs.last_subset hev) hr
    rw [← alerts_eq] at ha
    refine ⟨f, hflaw, n + 1, fun m hm => ?_⟩
    rw [alerts_le h.loads hm (by simp [ha]), ha]

/-- **A run at seeded prices** raises its alert in the first cycle or never. Which of the two is
settled by its configuration. -/
theorem seeded_fails_at_once_or_never (h : Bundled slot put get? s c)
    (hfeed : c.exchange.other.get? Paper.feedKey = none) (w : ω) (σ : Schedule ω)
    (hσ : Untouched slot (fresh s w) σ) :
    (Flawless c ∧ StaysWell get? c (fresh s w) σ) ∨
      (¬ Flawless c ∧ FailsAtOnce c (fresh s w) σ) := by
  have hf : feedOf c.exchange = none := by rw [feedOf, hfeed]; rfl
  by_cases hc : Flawless c
  · exact .inl ⟨hc, h.staysWell hσ hf hc⟩
  · exact .inr ⟨hc, h.failsAtOnce hσ hf hc⟩

end

namespace Rehearsed

/-- A bot that watches a market and its order book. -/
def priced : Config where
  engine := config.engine
  exchange :=
    { name := "Paper", adapter := Registry.paperId
      other := .ofList [("balance.BTC", "5"), ("price.btcusd", "100")] }
  markets := config.markets
  strategies :=
    [{ id := "watch", name := "Watch", className := Registry.marketWatchId
       items := .ofList [(MarketWatch.bookKey, "true")] }]

/-- The same bot without a price for its market. -/
def unpriced : Config :=
  { priced with exchange := { priced.exchange with other := .ofList [("balance.BTC", "5")] } }

theorem seededRun_rehearsed :
    let e := Engine.fresh (bundledSetup priced) {}
    let e' := Engine.fresh (bundledSetup unpriced) {}
    (Bundled (.whole _) id some (bundledSetup priced) priced ∧ Untouched (.whole _) e turns) ∧
      (Bundled (.whole _) id some (bundledSetup unpriced) unpriced ∧ Untouched (.whole _) e' turns) ∧
      ((e.after turns 40).cycles = 3 ∧ (e.after turns 40).phase.InLoop) ∧
      (e'.after turns 40).alerts = [(Fatal.subject, (MarketWatch.refusal "btcusd"
        "Unknown market 'btcusd'").body)] ∧
      StaysWell some priced e turns ∧ FailsAtOnce unpriced e' turns := by
  intro e e'
  have hb : Bundled (.whole _) id some (bundledSetup priced) priced :=
    CommandLine.bundled (by decide +kernel) rfl (by decide)
  have hb' : Bundled (.whole _) id some (bundledSetup unpriced) unpriced :=
    CommandLine.bundled (by decide +kernel) rfl (by decide)
  have hcycles : (e.after turns 40).cycles = 3 := by decide +kernel
  have halerts : (e'.after turns 40).alerts = [(Fatal.subject, (MarketWatch.refusal "btcusd"
      "Unknown market 'btcusd'").body)] := by decide +kernel
  refine ⟨⟨hb, untouched_turns e⟩, ⟨hb', untouched_turns e'⟩, ⟨hcycles, by decide +kernel⟩,
    halerts, ?_, ?_⟩
  · rcases seeded_fails_at_once_or_never hb (by decide) {} turns (untouched_turns e) with
      ⟨-, hw⟩ | ⟨-, hf⟩
    · exact hw
    · exact absurd (hf.cycles 40) (by simp [e, hcycles])
  · rcases seeded_fails_at_once_or_never hb' (by decide) {} turns (untouched_turns e') with
      ⟨-, hw⟩ | ⟨-, hf⟩
    · exact absurd (hw.alerts 40) (by simp [e', halerts])
    · exact hf

end Rehearsed

end TradingBot
