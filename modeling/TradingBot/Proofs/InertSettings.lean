import Mathlib.Logic.Relation
import TradingBot.Proofs.Assembly

/-!
# Settings that mean nothing to a run

**Edits** (`Config.Edit`). A disabled market is struck out, a strategy is struck out that no enabled
market names, or the strategies are listed in another order.

**What remains** (`Config.Agrees`). Edits of a valid configuration leave it valid, and they change
neither the settings of the engine and of the exchange nor what is found for an enabled market.

**Runs side by side** (`Engine.recast`). An engine that works from the edited configuration differs
from the other one in nothing but the configuration itself: each move takes the two to engines that
differ in nothing else again (`Engine.move_recast`).

**Theorem (`Engine.alike_after`).** A valid configuration and what edits make of it lead to the same
runs.
-/

namespace TradingBot

/-- The effect, but with another outcome of the loading. -/
def Effect.reloaded {ω ς : Type} (r : Except Config.Error Config) : Effect ω ς → Effect ω ς
  | .loaded _ => .loaded r
  | f => f

namespace Config

/-! ## Edits -/

inductive Edit (c : Config) : Config → Prop
  | dropMarket {before after : List Market} {m : Market} : c.markets = before ++ m :: after →
      m.enabled = false → Edit c { c with markets := before ++ after }
  | dropStrategy {before after : List Strategy} {s : Strategy} :
      c.strategies = before ++ s :: after → (∀ m ∈ c.enabledMarkets, m.strategyId ≠ s.id) →
      Edit c { c with strategies := before ++ after }
  | reorder {ss : List Strategy} : ss.Perm c.strategies → Edit c { c with strategies := ss }

def Edits : Config → Config → Prop := Relation.ReflTransGen Edit

/-- The configurations say the same to a run. -/
structure Agrees (c c' : Config) : Prop where
  engine : c'.engine = c.engine
  exchange : c'.exchange = c.exchange
  markets : c'.enabledMarkets = c.enabledMarkets
  strategies : ∀ m ∈ c.enabledMarkets, c'.strategy? m.strategyId = c.strategy? m.strategyId

theorem Agrees.refl (c : Config) : Agrees c c := ⟨rfl, rfl, rfl, fun _ _ => rfl⟩

theorem Agrees.trans {c d c' : Config} (h : Agrees c d) (h' : Agrees d c') : Agrees c c' where
  engine := h'.engine.trans h.engine
  exchange := h'.exchange.trans h.exchange
  markets := h'.markets.trans h.markets
  strategies m hm := (h'.strategies m (h.markets ▸ hm)).trans (h.strategies m hm)

variable {c c' : Config}

theorem Edit.engine (h : Edit c c') : c'.engine = c.engine := by
  cases h <;> rfl

theorem Edit.exchange (h : Edit c c') : c'.exchange = c.exchange := by
  cases h <;> rfl

theorem Edit.enabledMarkets (h : Edit c c') : c'.enabledMarkets = c.enabledMarkets := by
  cases h with
  | dropMarket hms hoff => simp [Config.enabledMarkets, hms, hoff]
  | dropStrategy | reorder => rfl

/-- An edit leaves a configuration valid: what it strikes out is nowhere needed. -/
theorem Edit.valid (h : Edit c c') (hv : c.Valid) : c'.Valid := by
  have hmarkets := h.enabledMarkets
  obtain ⟨he, hx, hs, hm, hl⟩ := hv
  refine ⟨h.engine ▸ he, h.exchange ▸ hx, ?_, ?_, hmarkets ▸ ?_⟩
  · cases h with
    | dropMarket => exact hs
    | dropStrategy hss =>
      refine hs.sublist ?_
      rw [hss]
      exact ((List.sublist_cons_self _ _).append_left _).map _
    | reorder hp => exact (hp.map _).nodup_iff.mpr hs
  · cases h with
    | dropMarket hms =>
      refine hm.sublist ?_
      rw [hms]
      exact ((List.sublist_cons_self _ _).append_left _).map _
    | dropStrategy | reorder => exact hm
  · cases h with
    | dropMarket => exact hl
    -- A market that is left names another strategy than the one struck out.
    | @dropStrategy before after s hss hfree =>
      intro m hmem
      have := hl m hmem
      rw [hss] at this
      simpa [hfree m hmem] using this
    | reorder hp => exact fun m hmem => (hp.map _).mem_iff.mpr (hl m hmem)

theorem Edit.keeps (h : Edit c c') {m : Market} (hm : m ∈ c.enabledMarkets) {s : Strategy}
    (hs : s ∈ c.strategies) (hid : s.id = m.strategyId) : s ∈ c'.strategies := by
  cases h with
  | dropMarket => exact hs
  | dropStrategy hss hfree =>
    rw [hss] at hs
    rcases List.mem_append.mp hs with hs | hs
    · exact List.mem_append_left _ hs
    · rcases List.mem_cons.mp hs with rfl | hs
      · exact absurd hid.symm (hfree m hm)
      · exact List.mem_append_right _ hs
  | reorder hp => exact hp.mem_iff.mpr hs

theorem Edit.agrees (h : Edit c c') (hv : c.Valid) : Agrees c c' := by
  refine ⟨h.engine, h.exchange, h.enabledMarkets, fun m hm => ?_⟩
  obtain ⟨s, hs, hmem, hid, -⟩ := hv.exists_strategy hm
  obtain ⟨-, -, hn, -⟩ := h.valid hv
  rw [hs, ← hid]
  exact strategy?_of_mem hn (h.keeps hm hmem hid)

theorem Edits.agrees (h : Edits c c') (hv : c.Valid) : c'.Valid ∧ Agrees c c' := by
  induction h with
  | refl => exact ⟨hv, .refl c⟩
  | tail _ hedit ih => exact ⟨hedit.valid ih.1, ih.2.trans (hedit.agrees ih.1)⟩

end Config

namespace Engine

open Config

variable {ω ς α : Type}

/-! ## Runs side by side -/

def Phase.recast (c' : Config) : Phase ω ς → Phase ω ς
  | .settingUp _ a p => .settingUp c' a p
  | .wiring _ x ready current left p => .wiring c' x ready current left p
  | p => p

/-- The engine with another configuration, from another source. -/
def recast (src : Source) (c' : Config) (e : Engine ω ς) : Engine ω ς :=
  { e with setup := { e.setup with source := src }, phase := e.phase.recast c' }

def Phase.WorksFrom (c : Config) : Phase ω ς → Prop
  | .settingUp c₁ _ _ => c₁ = c
  | .wiring c₁ _ _ _ left _ => c₁ = c ∧ ∀ m ∈ left, m ∈ c.enabledMarkets
  | _ => True

variable {src : Source} {c c' : Config} {e d e' : Engine ω ς}

theorem requestStop_recast : (e.recast src c').requestStop = e.requestStop.recast src c' := by
  cases h : e.stopRequested <;> simp [requestStop, recast, h, tell]

theorem carry_recast {p : Program ω α} {suspend suspend' : Program ω α → Phase ω ς}
    {finish finish' : Engine ω ς → α → Engine ω ς}
    (hs : ∀ q, suspend' q = (suspend q).recast c')
    (hf : ∀ d a, finish' (recast src c' d) a = (finish d a).recast src c') :
    (e.recast src c').carry p suspend' finish' = (e.carry p suspend finish).recast src c' := by
  have hafter : (e.recast src c').afterTurn p = (e.afterTurn p).recast src c' := by
    unfold afterTurn
    show (if (e.turn p).stop then _ else _) = _
    cases (e.turn p).stop with
    -- A turn that asks for a stop sets the flag in both engines.
    | true =>
      let d : Engine ω ς :=
        { e with world := (e.turn p).world, lines := e.lines ++ (e.turn p).lines }
      exact requestStop_recast (e := d)
    | false => rfl
  have hturn : (e.recast src c').turn p = e.turn p := rfl
  rw [carry_eq, carry_eq, hafter, hturn]
  cases (e.turn p).rest with
  | inl a => exact hf _ a
  | inr wait => simp [recast, hs]

theorem wireNext_recast (hag : Agrees c c') (x : Exchange ω) (ready : List (Wired ω ς))
    {left : List Config.Market} (hleft : ∀ m ∈ left, m ∈ c.enabledMarkets) (e : Engine ω ς) :
    (e.recast src c').wireNext c' x ready left = (e.wireNext c x ready left).recast src c' := by
  cases left with
  | nil =>
    simp only [wireNext, hag.engine]
    rfl
  | cons m left =>
    simp only [wireNext, hag.strategies m (hleft m List.mem_cons_self)]
    cases c.strategy? m.strategyId with
    | none => rfl
    | some settings =>
      have hreg : (e.recast src c').setup.registry = e.setup.registry := rfl
      dsimp only
      rw [hreg]
      cases e.setup.registry.strategy? settings.className <;> rfl

theorem load_recast (hl : e.setup.source.load = .ok c) (hl' : src.load = .ok c')
    (ho : src.opened = e.setup.source.opened) (hag : Agrees c c') :
    (e.recast src c').load = e.load.recast src c' := by
  unfold load
  simp only [recast, hl, hl', ho, hag.exchange]
  cases e.setup.registry.adapter? c.exchange.adapter <;> rfl

theorem afterSetUp_recast (hag : Agrees c c') (a : Adapter ω) (d : Engine ω ς)
    (r : Except Fault Unit) :
    (recast src c' d).afterSetUp c' a r = (d.afterSetUp c a r).recast src c' := by
  unfold afterSetUp
  rw [hag.exchange, hag.markets]
  match r with
  | .ok () => exact wireNext_recast hag _ _ (fun m hm => hm) (d.tell _ _ _)
  | .error (.error _) | .error (.crash _) => rfl

theorem afterWiring_recast (hag : Agrees c c') (x : Exchange ω) (ready : List (Wired ω ς))
    (current : Wired ω ς) {left : List Config.Market} (hleft : ∀ m ∈ left, m ∈ c.enabledMarkets)
    (d : Engine ω ς) (r : Except StrategyFault Unit × ς) :
    (recast src c' d).afterWiring c' x ready current left r =
      (d.afterWiring c x ready current left r).recast src c' := by
  match r with
  | (.ok (), state) => exact wireNext_recast hag _ _ hleft (d.tell _ _ _)
  | (.error (.failure _), _) | (.error (.unexpected _ _), _) | (.error (.crash _), _) => rfl

theorem completeCycle_recast (run : Run ω ς) (e : Engine ω ς) :
    (e.recast src c').completeCycle run = (e.completeCycle run).recast src c' := by
  unfold completeCycle rest
  dsimp only
  split
  · next h => exact (if_pos h).symm ▸ rfl
  · next h => exact (if_neg h).symm ▸ rfl

theorem dispatch_recast (run : Run ω ς) (finished left : List (Wired ω ς)) (e : Engine ω ς) :
    (e.recast src c').dispatch run finished left =
      (e.dispatch run finished left).recast src c' := by
  cases left with
  | nil => exact completeCycle_recast _ e
  | cons => rfl

theorem check_recast (run : Run ω ς) (e : Engine ω ς) :
    (e.recast src c').check run = (e.check run).recast src c' := by
  unfold check
  show (if e.stopRequested then _ else _) = _
  split
  · rfl
  · split
    · rfl
    · exact dispatch_recast _ _ _ e

theorem afterFetch_recast (run : Run ω ς) (d : Engine ω ς) (r : Except Fault Balances) :
    (recast src c' d).afterFetch run r = (d.afterFetch run r).recast src c' := by
  unfold afterFetch
  split
  · exact dispatch_recast _ _ _ (d.tell _ _ _)
  · exact completeCycle_recast _ (d.tell _ _ _)
  · rfl

theorem afterExecute_recast (run : Run ω ς) (finished left : List (Wired ω ς))
    (current : Wired ω ς) (d : Engine ω ς) (r : Except StrategyFault Unit × ς) :
    (recast src c' d).afterExecute run finished current left r =
      (d.afterExecute run finished current left r).recast src c' := by
  match r with
  | (.ok (), state) => exact dispatch_recast _ _ _ d
  | (.error _, _) => rfl

theorem afterAlert_recast (d : Engine ω ς) (r : Except DeliveryFailure Unit) :
    (recast src c' d).afterAlert r = (d.afterAlert r).recast src c' := by
  have hstop (d : Engine ω ς) :
      { (recast src c' d).requestStop with phase := .leaving .ok } =
        recast src c' { d.requestStop with phase := .leaving .ok } := by
    rw [requestStop_recast]
    rfl
  cases r with
  | ok => exact hstop d
  | error f => exact hstop (d.tell _ _ _)

theorem keepPausing_recast (run : Run ω ς) (deadline : Nat) (e : Engine ω ς) :
    (e.recast src c').keepPausing run deadline = (e.keepPausing run deadline).recast src c' := by
  have hstop : (e.recast src c').stopRequested = e.stopRequested := rfl
  have hnow : (e.recast src c').now = e.now := rfl
  unfold keepPausing
  rw [hstop, hnow]
  cases Pause.next e.stopRequested e.now deadline <;> rfl

theorem leave_recast (result : StartEnd) (e : Engine ω ς) :
    (e.recast src c').leave result = (e.leave result).recast src c' := by
  cases result <;> rfl

/-- **A move of the start at work** takes the two engines to two that differ in nothing else. -/
theorem work_recast (hl : e.setup.source.load = .ok c) (hl' : src.load = .ok c')
    (ho : src.opened = e.setup.source.opened) (hag : Agrees c c') (hw : e.phase.WorksFrom c) :
    (e.recast src c').work = e.work.recast src c' := by
  have hsleep : (e.recast src c').isAsleep = e.isAsleep := rfl
  have hphase : (e.recast src c').phase = e.phase.recast c' := rfl
  unfold work
  rw [hsleep, hphase]
  split
  · rfl
  · cases hp : e.phase with
    | idle => rfl
    | loading => exact load_recast hl hl' ho hag
    | settingUp c₁ a p =>
      rw [hp] at hw
      obtain rfl := hw
      exact carry_recast (fun _ => rfl) fun d r => afterSetUp_recast hag a d r
    | wiring c₁ x ready current left p =>
      rw [hp] at hw
      obtain ⟨rfl, hleft⟩ := hw
      exact carry_recast (fun _ => rfl) fun d r => afterWiring_recast hag x ready current hleft d r
    | checking run => exact check_recast run e
    | fetching run p => exact carry_recast (fun _ => rfl) fun d r => afterFetch_recast run d r
    | executing run finished current left p =>
      exact carry_recast (fun _ => rfl) fun d r => afterExecute_recast run finished left current d r
    | alerting p => exact carry_recast (fun _ => rfl) fun d r => afterAlert_recast d r
    | pausing run deadline => exact keepPausing_recast run deadline e
    | leaving result => exact leave_recast result e

theorem start_recast : (e.recast src c').start = e.start.recast src c' := by
  by_cases h : e.lifecycle = .notStarted
  · have h' : (e.recast src c').lifecycle = .notStarted := h
    simp only [start, h, h']
    rfl
  · rw [start_refused h, start_refused (e := e.recast src c') h]
    rfl

theorem move_recast (hl : e.setup.source.load = .ok c) (hl' : src.load = .ok c')
    (ho : src.opened = e.setup.source.opened) (hag : Agrees c c') (hw : e.phase.WorksFrom c)
    (m : Move ω) : (e.recast src c').move m = (e.move m).recast src c' := by
  cases m with
  | start => exact start_recast
  | requestStop => exact requestStop_recast
  | work => exact work_recast hl hl' ho hag hw
  | pass | change => rfl

/-! ## The configuration that a phase works from -/

theorem Wires.worksFrom {x : Exchange ω} {ready : List (Wired ω ς)} {left : List Config.Market}
    {evs : List Event} (hw : Wires d c x ready left evs e')
    (hleft : ∀ m ∈ left, m ∈ c.enabledMarkets) : e'.phase.WorksFrom c := by
  cases hw with
  | enters | unlisted | unknown => trivial
  | inits => exact ⟨rfl, (List.forall_mem_cons.mp hleft).2⟩

theorem Rests.worksFrom {run : Run ω ς} (hr : Rests d run e') : e'.phase.WorksFrom c := by
  cases hr <;> trivial

theorem Dispatches.worksFrom {run : Run ω ς} {finished left : List (Wired ω ς)}
    {evs : List Event} (hd : Dispatches d run finished left evs e') : e'.phase.WorksFrom c := by
  cases hd with
  | ends hr => exact hr.worksFrom
  | executes => trivial

theorem Step.worksFrom {evs : List Event} (hl : e.setup.source.load = .ok c)
    (hw : e.phase.WorksFrom c) (st : Step e evs e') : e'.phase.WorksFrom c := by
  cases st with
  | waits hsus hp =>
    rw [hp] at hw
    cases hsus <;> exact hw
  | loads _ hl' =>
    cases hl.symm.trans hl'
    exact rfl
  | setsUp hp _ hwires =>
    rw [hp] at hw
    cases hw
    exact hwires.worksFrom fun m hm => hm
  | strategyReady hp _ hwires =>
    rw [hp] at hw
    obtain ⟨rfl, hleft⟩ := hw
    exact hwires.worksFrom hleft
  | begins _ _ _ hd | passes _ _ _ _ hd | executes _ _ hd => exact hd.worksFrom
  | skips _ _ hr => exact hr.worksFrom
  | ticks => exact hw
  | _ => trivial

theorem Follows.worksFrom {m : Move ω} {evs : List Event} (hm : Follows e m evs e')
    (hl : e.setup.source.load = .ok c) (hw : e.phase.WorksFrom c) : e'.phase.WorksFrom c := by
  cases hm with
  | claims => trivial
  | refused | asked | passes | changes | holds => exact hw
  | steps _ _ st => exact st.worksFrom hl hw

theorem worksFrom_after {s : Setup ω ς} (hl : s.source.load = .ok c) (w : ω) (σ : Schedule ω)
    (n : Nat) : ((fresh s w).after σ n).phase.WorksFrom c := by
  induction n with
  | zero => trivial
  | succ n ih => exact (move_follows _ _).worksFrom (by rwa [setup_after]) ih

/-! ## What an observer notes -/

theorem learned_recast : (e.recast src c').learned = e.learned := by
  have hphase : (e.recast src c').phase = e.phase.recast c' := rfl
  unfold learned
  rw [hphase]
  cases e.phase <;> rfl

theorem showing_recast (hl : e.setup.source.load = .ok c) (hl' : src.load = .ok c')
    (ho : src.opened = e.setup.source.opened) (hag : Agrees c c') (hw : e.phase.WorksFrom c)
    (m : Move ω) : (e.recast src c').showing m = e.showing m := by
  cases m with
  | work =>
    show (if e.isAsleep then _ else _) = (if e.isAsleep then _ else _)
    rw [learned_recast, work_recast hl hl' ho hag hw]
    rfl
  | start | requestStop | pass | change => rfl

theorem replied_recast (hl' : src.load = .ok c') :
    (e.recast src c').replied = e.replied.map (.reloaded (.ok c')) := by
  have hphase : (e.recast src c').phase = e.phase.recast c' := rfl
  have hturn {α : Type} (p : Program ω α) : (e.recast src c').turn p = e.turn p := rfl
  unfold replied
  rw [hphase]
  cases e.phase with
  | loading => exact congrArg (fun r => [Effect.loaded r]) hl'
  | settingUp c₁ a p =>
    simp only [Phase.recast, hturn]
    cases (e.turn p).rest <;> rfl
  | wiring c₁ x ready current left p =>
    simp only [Phase.recast, hturn]
    cases (e.turn p).rest <;> rfl
  | _ => rfl

theorem begun_recast (e' : Engine ω ς) :
    (e.recast src c').begun (e'.recast src c') = (e.begun e').map (.reloaded (.ok c')) := by
  have hphase : (e'.recast src c').phase = e'.phase.recast c' := rfl
  have hactions : (e'.recast src c').actions = e'.actions := rfl
  unfold begun
  rw [hphase, hactions]
  show (if e'.actions.size = e.actions.size then _ else _) = _
  split
  · rfl
  · cases e'.phase <;> rfl

theorem effecting_recast (hl : e.setup.source.load = .ok c) (hl' : src.load = .ok c')
    (ho : src.opened = e.setup.source.opened) (hag : Agrees c c') (hw : e.phase.WorksFrom c)
    (m : Move ω) :
    (e.recast src c').effecting m = (e.effecting m).map (.reloaded (.ok c')) := by
  cases m with
  | work =>
    show (if e.isAsleep then _ else _) = List.map _ (if e.isAsleep then _ else _)
    rw [work_recast hl hl' ho hag hw, replied_recast hl', begun_recast]
    split
    · rfl
    · rw [List.map_append]
  | start | requestStop | pass | change => rfl

/-! ## Whole runs -/

/-- The engines are in the same state, whatever configuration they work from. -/
structure Alike (e e' : Engine ω ς) : Prop where
  world : e'.world = e.world
  lifecycle : e'.lifecycle = e.lifecycle
  stopRequested : e'.stopRequested = e.stopRequested
  cycles : e'.cycles = e.cycles
  now : e'.now = e.now
  wake : e'.wake = e.wake
  /-- How each call of start ended. -/
  starts : e'.starts = e.starts
  /-- The calls of components and the alerts, in order. -/
  actions : e'.actions = e.actions
  lines : e'.lines = e.lines

theorem recast_after {s : Setup ω ς} (hl : s.source.load = .ok c) (hl' : src.load = .ok c')
    (ho : src.opened = s.source.opened) (hag : Agrees c c') (w : ω) (σ : Schedule ω) (n : Nat) :
    (fresh { s with source := src } w).after σ n =
        ((fresh s w).after σ n).recast src c' ∧
      (fresh { s with source := src } w).history σ n = (fresh s w).history σ n ∧
      (fresh { s with source := src } w).effects σ n =
        ((fresh s w).effects σ n).map (.reloaded (.ok c')) := by
  induction n with
  | zero => exact ⟨rfl, rfl, rfl⟩
  | succ n ih =>
    obtain ⟨he, hh, hf⟩ := ih
    have hset := setup_after (fresh s w) σ n
    have hln : ((fresh s w).after σ n).setup.source.load = .ok c := by rwa [hset]
    have hon : src.opened = ((fresh s w).after σ n).setup.source.opened := by rwa [hset]
    have hwn := worksFrom_after hl w σ n
    refine ⟨?_, ?_, ?_⟩
    · rw [after, he, move_recast hln hl' hon hag hwn, after]
    · rw [history, he, hh, showing_recast hln hl' hon hag hwn, history]
    · rw [effects, he, hf, effecting_recast hln hl' hon hag hwn, effects, List.map_append]

/-- **What a run does not look at.** Strike disabled markets and strategies that no enabled market
names out of a valid configuration, and list its strategies in any order: the configuration is still
valid, and it makes the same runs, with the same components and the same alerter, from the same
world and under the same schedule. At every moment the engines are in the same state, have made the
same calls and got the same replies, and have begun the same initialisations with the same
arguments. -/
theorem alike_after {c c' : Config} (hv : c.Valid) (he : Config.Edits c c') :
    c'.Valid ∧ ∀ (s : Setup ω ς) (src : Source), s.source.load = .ok c → src.load = .ok c' →
      src.opened = s.source.opened → ∀ (w : ω) (σ : Schedule ω) (n : Nat),
        let e := fresh s w
        let e' := fresh { s with source := src } w
        Alike (e.after σ n) (e'.after σ n) ∧ e'.history σ n = e.history σ n ∧
          e'.effects σ n = (e.effects σ n).map (.reloaded (.ok c')) := by
  obtain ⟨hv', hag⟩ := he.agrees hv
  refine ⟨hv', fun s src hl hl' ho w σ n => ?_⟩
  obtain ⟨hafter, hrest⟩ := recast_after hl hl' ho hag w σ n
  refine ⟨?_, hrest⟩
  rw [hafter]
  exact ⟨rfl, rfl, rfl, rfl, rfl, rfl, rfl, rfl, rfl⟩

end Engine

namespace Rehearsed

/-- The rehearsed bot with a market that is disabled and a strategy that nobody names. -/
def cluttered : Config :=
  { config with
    markets :=
      { id := "ethusd", name := "ETH/USD", base := "ETH", counter := "USD", strategyId := "lost" }
        :: config.markets
    strategies := { id := "spare", name := "Spare", className := "nowhere" } :: config.strategies }

theorem edits_cluttered : Config.Edits cluttered config := by
  let reordered : Config := { cluttered with strategies := cluttered.strategies.reverse }
  let used : Config := { cluttered with strategies := config.strategies }
  have hswap : Config.Edit cluttered reordered := .reorder (List.reverse_perm _)
  have hstrategy : Config.Edit reordered used :=
    @Config.Edit.dropStrategy reordered config.strategies [] _ rfl (by decide)
  have hmarket : Config.Edit used config := @Config.Edit.dropMarket used [] _ _ rfl rfl
  exact .head hswap (.head hstrategy (.single hmarket))

theorem alike_rehearsed :
    let e := Engine.fresh { setup with source := cluttered.toSource } world
    let e' := Engine.fresh setup world
    cluttered.Valid ∧ Config.Edits cluttered config ∧ (e.after schedule 40).cycles = 2 ∧
      Engine.Alike (e.after schedule 40) (e'.after schedule 40) ∧
      e'.history schedule 40 = e.history schedule 40 ∧
      e'.effects schedule 40 = (e.effects schedule 40).map (.reloaded (.ok config)) := by
  have hv : cluttered.Valid := (Config.violation?_eq_none_iff _).mp (by decide +kernel)
  have halike := (Engine.alike_after hv edits_cluttered).2
    { setup with source := cluttered.toSource } config.toSource hv.load config_loads rfl
  exact ⟨hv, edits_cluttered, by decide +kernel, halike world schedule 40⟩

end Rehearsed

end TradingBot
