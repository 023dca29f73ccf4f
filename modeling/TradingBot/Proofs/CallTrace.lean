import TradingBot.Proofs.Trace
import TradingBot.Rehearsal

/-!
# The calls of a run, cycle by cycle

**The invariant** (`Engine.Told`). The events so far split into calls that put the run together,
completed cycles, as many as the engine has counted, and a last part that fits the phase that the
engine is in (`Engine.Story`): a fetch that waits for balances, executions up to the one that waits,
a cycle that failed, or nothing between two cycles.

Every move keeps it (`Engine.Told.follows`). In a cycle, a move lets the cycle go on, completes it,
or makes it fail (`Engine.Advance`).

**Theorem (`Engine.traced_after`).** Every run has the form that its configuration prescribes.
-/

namespace TradingBot

/-- The run is made from the configuration. -/
structure Run.Fits {ω ς : Type} (r : Run ω ς) (c : Config) : Prop where
  settings : r.settings = c.engine
  markets : r.markets.map (·.market.id) = c.marketIds

namespace Engine

open Trace

variable {ω ς : Type}

def idsOf (ws : List (Wired ω ς)) : List String := ws.map (·.market.id)

/-- How a run that has ended, or is about to, came to its end. -/
inductive Over (c : Config) : List Event → Prop
  | stopSeen : Over c [.stopSeen]
  | failed {l : List Event} : Failed c l → Over c l

/-- What comes after so many completed cycles, by the phase that the engine is in. -/
def Story (c : Config) (count : Nat) (l : List Event) : Phase ω ς → Prop
  | .idle => l = [] ∨ Over c l
  | .loading => count = 0 ∧ l = []
  | .settingUp c' _ _ => c' = c ∧ count = 0 ∧ l = []
  | .wiring c' _ ready current left _ =>
    c' = c ∧ count = 0 ∧ l = [] ∧
      idsOf ready ++ current.market.id :: left.map (·.id) = c.marketIds
  | .checking run => run.Fits c ∧ l = []
  | .fetching run _ =>
    run.Fits c ∧ c.engine.WatchesBalance ∧ l = [.began, .call .fetchBalances]
  | .executing run finished current left _ =>
    run.settings = c.engine ∧ idsOf finished ++ current.market.id :: idsOf left = c.marketIds ∧
      ∃ gate, Clears c.engine gate ∧
        l = .began :: gate ++ executions (idsOf finished) ++ [.call (.execute current.market.id)]
  | .alerting _ => Failed c l
  | .pausing run _ => run.Fits c ∧ l = []
  | .leaving .ok => Over c l
  | .leaving _ => l = []

def Phase.InLoop : Phase ω ς → Prop
  | .checking _ | .fetching _ _ | .executing _ _ _ _ _ | .pausing _ _ => True
  | .idle | .loading | .settingUp _ _ _ | .wiring _ _ _ _ _ _ | .alerting _ | .leaving _ => False

/-- The engine waits for a reply in the middle of a cycle. -/
def Phase.InCycle : Phase ω ς → Prop
  | .fetching _ _ | .executing _ _ _ _ _ => True
  | .idle | .loading | .settingUp _ _ _ | .wiring _ _ _ _ _ _ | .checking _ | .alerting _
  | .pausing _ _ | .leaving _ => False

instance (p : Phase ω ς) : Decidable p.InLoop :=
  match p with
  | .checking _ | .fetching _ _ | .executing _ _ _ _ _ | .pausing _ _ => .isTrue trivial
  | .idle | .loading | .settingUp _ _ _ | .wiring _ _ _ _ _ _ | .alerting _ | .leaving _ =>
    .isFalse id

instance (p : Phase ω ς) : Decidable p.InCycle :=
  match p with
  | .fetching _ _ | .executing _ _ _ _ _ => .isTrue trivial
  | .idle | .loading | .settingUp _ _ _ | .wiring _ _ _ _ _ _ | .checking _ | .alerting _
  | .pausing _ _ | .leaving _ => .isFalse id

/-- The events so far fit the engine. -/
def Fitting (c : Config) (e : Engine ω ς) (h : List Event) : Prop :=
  ∃ last, Splits c h e.cycles last ∧ Story c e.cycles last e.phase

/-- The events so far fit the engine, and there are none before the first start. -/
structure Told (c : Config) (e : Engine ω ς) (h : List Event) : Prop where
  source : e.setup.source.load = .ok c
  unstarted : e.lifecycle = .notStarted → e.phase = .idle ∧ e.cycles = 0 ∧ h = []
  fitting : Fitting c e h

theorem Over.last {c : Config} {l : List Event} (h : Over c l) : Last c l := by
  cases h with
  | stopSeen => exact .stopSeen
  | failed hf => exact .failed hf

variable {c : Config} {e e' : Engine ω ς} {h evs l : List Event}

theorem Story.underWay {count : Nat} {p : Phase ω ς} (hs : Story c count l p) (hp : p.InCycle) :
    UnderWay c l := by
  cases p with
  | fetching =>
    obtain ⟨-, hw, rfl⟩ := hs
    exact .fetching hw
  | executing =>
    obtain ⟨-, hids, gate, hg, rfl⟩ := hs
    exact .executing hg hids
  | _ => exact hp.elim

theorem Story.of_inLoop {count : Nat} {p : Phase ω ς} (hs : Story c count l p) (hp : p.InLoop) :
    l = [] ∨ UnderWay c l := by
  by_cases hc : p.InCycle
  · exact .inr (hs.underWay hc)
  · cases p with
    | checking | pausing => exact .inl hs.2
    | fetching | executing => exact absurd trivial hc
    | _ => exact hp.elim

theorem Story.last {count : Nat} {p : Phase ω ς} (hs : Story c count l p) : Last c l := by
  cases p with
  | idle =>
    rcases hs with rfl | ho
    · exact .nothing
    · exact ho.last
  | loading =>
    obtain ⟨-, rfl⟩ := hs
    exact .nothing
  | settingUp =>
    obtain ⟨-, -, rfl⟩ := hs
    exact .nothing
  | wiring =>
    obtain ⟨-, -, rfl, -⟩ := hs
    exact .nothing
  | checking | pausing =>
    obtain ⟨-, rfl⟩ := hs
    exact .nothing
  | fetching | executing => exact .underWay (Story.underWay hs trivial)
  | alerting => exact .failed hs
  | leaving result =>
    cases result with
    | ok => exact Over.last hs
    | error | crash =>
      obtain rfl := hs
      exact .nothing

theorem Fitting.traced (hf : Fitting c e h) : Traced c h e.cycles := by
  obtain ⟨last, hsplit, hs⟩ := hf
  exact ⟨last, hsplit, hs.last⟩

/-! ## One move keeps the invariant -/

/-- What a move that shows `evs` means for a cycle that has shown `l`: the cycle goes on, is
completed, or fails. -/
inductive Advance (c : Config) (e : Engine ω ς) (l evs : List Event) (e' : Engine ω ς) : Prop
  | goesOn : e'.phase.InCycle → Story c e.cycles (l ++ evs) e'.phase → e'.cycles = e.cycles →
      Advance c e l evs e'
  | completes {run : Run ω ς} : Completed c (l ++ evs) → run.Fits c →
      e'.cycles = e.cycles + 1 → e'.phase = .idle ∨ (∃ deadline, e'.phase = .pausing run deadline) →
      Advance c e l evs e'
  | fails {p : Program ω (Except DeliveryFailure Unit)} : Failed c (l ++ evs) →
      e'.phase = .alerting p → e'.cycles = e.cycles → Advance c e l evs e'

theorem Advance.fitting (ha : Advance c e l evs e') (hp : Splits c h e.cycles l) :
    Fitting c e' (h ++ evs) := by
  cases ha with
  | goesOn _ hs hcyc => exact ⟨_, hcyc ▸ hp.extends evs, hcyc ▸ hs⟩
  | completes hc hf hcyc hph =>
    refine ⟨[], hcyc ▸ hp.completes hc, ?_⟩
    rcases hph with hph | ⟨deadline, hph⟩
    · rw [hph]
      exact .inl rfl
    · rw [hph]
      exact ⟨hf, rfl⟩
  | fails hf hph hcyc =>
    refine ⟨_, hcyc ▸ hp.extends evs, ?_⟩
    rw [hph]
    exact hf

theorem Rests.advance {d : Engine ω ς} {run : Run ω ς} (hr : Rests d run e')
    (hd : d.cycles = e.cycles) (hf : run.Fits c) (hc : Completed c (l ++ evs)) :
    Advance c e l evs e' := by
  cases hr with
  | pauses => exact .completes hc hf (congrArg (· + 1) hd) (.inr ⟨_, rfl⟩)
  | breaksOff => exact .completes hc hf (congrArg (· + 1) hd) (.inl rfl)

/-- The cycle has shown `l` up to the reply `ev`. -/
theorem Dispatches.advance {d : Engine ω ς} {run : Run ω ς} {finished left : List (Wired ω ς)}
    {gate : List Event} {ev : Event} (hdis : Dispatches d run finished left evs e')
    (hd : d.cycles = e.cycles) (hs : run.settings = c.engine)
    (hids : idsOf finished ++ idsOf left = c.marketIds) (hg : Clears c.engine gate)
    (hl : l ++ [ev] = .began :: gate ++ executions (idsOf finished)) :
    Advance c e l (ev :: evs) e' := by
  cases hdis with
  | ends hr =>
    have hall : idsOf finished = c.marketIds := by simpa [idsOf] using hids
    refine hr.advance hd ⟨hs, hall⟩ ?_
    rw [List.append_cons, hl, hall]
    exact .executed hg
  | executes =>
    refine .goesOn trivial ⟨hs, hids, gate, hg, ?_⟩ hd
    rw [List.append_cons, hl]

theorem Step.advance (st : Step e evs e') (hc : e.phase.InCycle)
    (hs : Story c e.cycles l e.phase) : Advance c e l evs e' := by
  cases st with
  -- A program that is suspended again has shown nothing, and its phase is of the same kind.
  | @waits _ suspend p q _ hsus hph ht =>
    rw [hph] at hs hc
    refine .goesOn ?_ ?_ (afterTurn_cycles e p)
    · cases hsus <;> first | exact trivial | exact hc.elim
    · rw [List.append_nil]
      cases hsus <;> exact hs
  -- The gate: the fetch is all that the cycle has shown, so `l` is the beginning of a cycle.
  | passes hph ht ha hle hd =>
    rw [hph] at hs
    obtain ⟨hf, hw, rfl⟩ := hs
    rw [hf.settings] at ha hle
    have hg := Clears.sufficient hw ⟨_, ha, Decimal.le_iff_value_le.mp hle⟩
    exact hd.advance (afterTurn_cycles e _) hf.settings hf.markets hg rfl
  | skips hph ht hr =>
    rw [hph] at hs
    obtain ⟨hf, hw, rfl⟩ := hs
    exact hr.advance (afterTurn_cycles e _) hf (.skipped _ hw)
  | fetchIsFatal hph ht hj =>
    rw [hph] at hs
    obtain ⟨hf, hw, rfl⟩ := hs
    rw [hf.settings] at hj
    exact .fails (.fetch hw (Event.raises_of_judge hj)) rfl (afterTurn_cycles e _)
  -- Behind the gate `l` holds the executions of the strategies that are finished.
  | executes hph ht hd =>
    rw [hph] at hs
    obtain ⟨hset, hids, gate, hg, rfl⟩ := hs
    refine hd.advance (afterTurn_cycles e _) hset (by simpa [idsOf] using hids) hg ?_
    simp [idsOf, executions]
  | @executeIsFatal _ _ _ _ _ fault _ _ hph ht =>
    rw [hph] at hs
    obtain ⟨hset, hids, gate, hg, rfl⟩ := hs
    refine .fails ?_ rfl (afterTurn_cycles e _)
    simpa [Event.alertOf] using Failed.execute hg hids (Event.raises_fatalOf _ fault)
  | _ => simp_all [Phase.InCycle]

theorem Wires.fitting {x : Exchange ω} {ready : List (Wired ω ς)} {left : List Config.Market}
    (hw : Wires e c x ready left evs e') (h0 : e.cycles = 0)
    (hids : idsOf ready ++ left.map (·.id) = c.marketIds) (hp : Splits c h 0 []) :
    Fitting c e' (h ++ evs) := by
  cases hw with
  | enters =>
    have hall : idsOf ready = c.marketIds := by simpa using hids
    exact ⟨[], by simpa [h0] using hp, ⟨rfl, hall⟩, rfl⟩
  | unlisted | unknown => exact ⟨[], by simpa [h0] using hp, rfl⟩
  | inits => exact ⟨[], h0 ▸ hp.opens trivial, rfl, h0, rfl, hids⟩

theorem Step.fitting (hl : e.setup.source.load = .ok c) (hf : Fitting c e h)
    (st : Step e evs e') : Fitting c e' (h ++ evs) := by
  obtain ⟨last, hp, hs⟩ := hf
  -- `last` is what was shown since the last cycle was completed, and the phase tells what it is.
  -- Within a cycle, `Step.advance` says how it grows. Each of the other rules names the phase that
  -- it starts from, so the story of that phase is what `hs` comes to.
  by_cases hcyc : e.phase.InCycle
  · exact (st.advance hcyc hs).fitting hp
  cases st with
  | waits hsus hph ht =>
    rw [hph] at hs
    rw [List.append_nil]
    refine ⟨last, by simpa using hp, ?_⟩
    cases hsus <;> simpa [Story] using hs
  -- While a run is put together, `last` is empty: the calls are those before all cycles.
  | loadFails hph | adapterUnknown hph =>
    rw [hph] at hs
    obtain ⟨-, rfl⟩ := hs
    exact ⟨[], by simpa using hp, rfl⟩
  | loads hph hload =>
    rw [hph] at hs
    obtain ⟨h0, rfl⟩ := hs
    rw [hl] at hload
    cases hload
    rw [h0] at hp
    exact ⟨[], h0 ▸ hp.opens trivial, rfl, h0, rfl⟩
  | setUpFails hph =>
    rw [hph] at hs
    obtain ⟨-, -, rfl⟩ := hs
    exact ⟨[], by simpa using hp, rfl⟩
  | setUpCrashes hph =>
    rw [hph] at hs
    obtain ⟨-, -, rfl⟩ := hs
    exact ⟨[], by simpa using hp, .inl rfl⟩
  | setsUp hph ht hw =>
    rw [hph] at hs
    obtain ⟨rfl, h0, rfl⟩ := hs
    exact hw.fitting (by simpa using h0) rfl (h0 ▸ hp)
  | strategyFails hph =>
    rw [hph] at hs
    obtain ⟨-, -, rfl, -⟩ := hs
    exact ⟨[], by simpa using hp, rfl⟩
  | strategyCrashes hph =>
    rw [hph] at hs
    obtain ⟨-, -, rfl, -⟩ := hs
    exact ⟨[], by simpa using hp, .inl rfl⟩
  | strategyReady hph ht hw =>
    rw [hph] at hs
    obtain ⟨rfl, h0, rfl, hids⟩ := hs
    exact hw.fitting (by simpa using h0) (by simpa [idsOf] using hids) (h0 ▸ hp)
  -- In the loop, what the move shows is the beginning of a cycle, or the mark of a stop.
  | seesStop hph =>
    rw [hph] at hs
    obtain ⟨-, rfl⟩ := hs
    exact ⟨_, hp.extends _, .stopSeen⟩
  | fetches hph _ hw =>
    rw [hph] at hs
    obtain ⟨hf, rfl⟩ := hs
    exact ⟨_, hp.extends _, hf, hf.settings ▸ hw, rfl⟩
  | begins hph _ hw hd =>
    rw [hph] at hs
    obtain ⟨hf, rfl⟩ := hs
    have hg := Clears.unwatched (hf.settings ▸ hw)
    exact (hd.advance rfl hf.settings hf.markets hg rfl).fitting hp
  -- The rules within a cycle are dealt with above.
  | passes hph | skips hph | fetchIsFatal hph | executes hph | executeIsFatal hph =>
    exact absurd (by rw [hph]; trivial) hcyc
  -- These rules show nothing. The result that is about to be returned tells how the run has ended.
  | alerted hph =>
    rw [hph] at hs
    rw [List.append_nil]
    exact ⟨last, by simpa using hp, .failed hs⟩
  | ticks =>
    rw [List.append_nil]
    exact ⟨last, hp, hs⟩
  | resumes hph =>
    rw [hph] at hs
    rw [List.append_nil]
    exact ⟨last, hp, hs⟩
  | @leaves result _ hph =>
    rw [hph] at hs
    rw [List.append_nil]
    refine ⟨last, hp, ?_⟩
    cases result with
    | ok => exact .inr hs
    | error | crash => exact .inl hs

theorem Told.follows {m : Move ω} (ht : Told c e h) (hm : Follows e m evs e') :
    Told c e' (h ++ evs) := by
  cases hm with
  | claims hl =>
    obtain ⟨-, h0, rfl⟩ := ht.unstarted hl
    have hp : Splits c [] e.cycles [] := h0 ▸ .nil
    exact ⟨ht.source, by simp, [], hp, h0, rfl⟩
  | refused | asked | passes | changes | holds =>
    rw [List.append_nil]
    exact ⟨ht.source, ht.unstarted, ht.fitting⟩
  | steps _ hi st =>
    refine ⟨st.stays.setup ▸ ht.source, fun hl => ?_, st.fitting ht.source ht.fitting⟩
    -- A start that is at work has claimed the engine.
    rcases st.stays.lifecycle with hs | hs
    · exact absurd (ht.unstarted (hs ▸ hl)).1 hi
    · rw [hs] at hl
      cases hl

theorem told_fresh {s : Setup ω ς} (hl : s.source.load = .ok c) (w : ω) :
    Told c (fresh s w) [] :=
  ⟨hl, fun _ => ⟨rfl, rfl, rfl⟩, [], .nil, .inl rfl⟩

theorem told_after {s : Setup ω ς} (hl : s.source.load = .ok c) (w : ω) (σ : Schedule ω)
    (n : Nat) : Told c ((fresh s w).after σ n) ((fresh s w).history σ n) :=
  after_of_start (fun _ _ _ _ _ hm ht => ht.follows hm) (told_fresh hl w) σ n

theorem actions_after (e : Engine ω ς) (σ : Schedule ω) (n : Nat) (h0 : e.actions = #[]) :
    (e.after σ n).actions.toList = (e.history σ n).filterMap Event.call? := by
  refine after_of_start (P := fun d h => d.actions.toList = h.filterMap Event.call?)
    (fun d m evs d' h hm hd => ?_) (by simp [h0]) σ n
  cases hm with
  | claims | refused | asked | passes | changes | holds => simpa using hd
  | steps _ _ st => rw [st.actions, hd, List.filterMap_append]

/-- **The form of every run.** Whatever the components reply, and whenever a stop is requested:
after the calls that put it together, a run is made of cycles. A cycle fetches the balances once if
they are watched; if they suffice or are not watched, it executes one strategy for each market, in
order; if they cannot be fetched this time, it ends there. The first fatal reply is the last thing
that happens before its alert. The engine has counted the cycles that ended without one. -/
theorem traced_after (s : Setup ω ς) (w : ω) (σ : Schedule ω) (n : Nat)
    (hl : s.source.load = .ok c) :
    let e := (fresh s w).after σ n
    let h := (fresh s w).history σ n
    e.actions.toList = h.filterMap Event.call? ∧ Traced c h e.cycles ∧
      EndsAtFatal c.engine h ∧ (c.engine.WatchesBalance → Guarded c.engine h) := by
  have ht := (told_after hl w σ n).fitting.traced
  exact ⟨actions_after _ σ n rfl, ht, ht.endsAtFatal, ht.guarded⟩

end Engine

/-! ## A rehearsed run -/

namespace Rehearsed

/-- A bot that trades on one market and watches for one coin. -/
def config : Config where
  engine := { botId := "bot", stopCurrency := "BTC", stopBalance := .one, cycleInterval := 1 }
  exchange := { name := "Scripted", adapter := "scripted" }
  markets :=
    [{ id := "btcusd", name := "BTC/USD", base := "BTC", counter := "USD", enabled := true
       strategyId := "watch" }]
  strategies := [{ id := "watch", name := "Watch", className := "scripted-strategy" }]

theorem config_loads : config.toSource.load = .ok config := by decide +kernel

def setup : Engine.Setup Rehearsal String where
  source := config.toSource
  registry :=
    ({} : Registry Rehearsal String).addAdapter "scripted" (Rehearsal.adapter "Scripted")
      |>.addStrategy "scripted-strategy" (Rehearsal.strategy { get := id, set := fun r _ => r })
  alerter := Rehearsal.alerter

/-- The balances cannot be fetched at first, then they suffice, then the exchange refuses to tell
them. -/
def world : Rehearsal where
  balances :=
    [{ outcome := .error (.error (.network "connection timed out")) },
      { outcome := .ok { available := .ofList [("BTC", .one)] } },
      { outcome := .error (.error (.api "Invalid API key")) }]

/-- A start, and then a second after every eleven moves. -/
def schedule : Schedule Rehearsal
  | 0 => .start
  | n + 1 => if n % 12 = 11 then .pass 1000 else .work

theorem traced_rehearsed :
    setup.source.load = .ok config ∧
      let e := (Engine.fresh setup world).after schedule 40
      let h := (Engine.fresh setup world).history schedule 40
      (e.cycles = 2 ∧ e.actions.toList =
        [.initExchange, .initStrategy "btcusd" "watch", .fetchBalances, .fetchBalances,
          .execute "btcusd", .fetchBalances,
          .alert Fatal.subject (Fatal.adapter "exchange API error: Invalid API key").body]) ∧
      e.actions.toList = h.filterMap Event.call? ∧ Traced config h e.cycles ∧
      EndsAtFatal config.engine h ∧ (config.engine.WatchesBalance → Guarded config.engine h) :=
  ⟨config_loads, by decide +kernel, Engine.traced_after setup world schedule 40 config_loads⟩

end Rehearsed

end TradingBot
