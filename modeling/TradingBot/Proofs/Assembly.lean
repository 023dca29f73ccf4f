import TradingBot.Proofs.FatalAlert
import TradingBot.Proofs.Plan

/-!
# Putting a run together, move by move

**The effects of a move** (`Engine.effecting`). A reply to the component that is being initialised,
and the initialisation that begins. They are read off the phases before and after the move.

**The invariant** (`Engine.Assembled`). Nothing was done yet, or the tasks before the one that the
phase waits for went well, or the last task has been performed and the engine stands as it says
(`Engine.Stands`): it works with the run that was put together, or its start ends with the failure.

Every move keeps it (`Engine.Assembled.move`). Once the last task has been performed, no move has an
effect any more (`Engine.Stands.move`).
-/

namespace TradingBot

variable {ω ς : Type}

/-! ## The effects of a move -/

namespace Engine

open Assembly

/-- What the next move of an assembly learns. -/
def replied (e : Engine ω ς) : List (Effect ω ς) :=
  match e.phase with
  | .loading => [.loaded e.setup.source.load]
  | .settingUp _ _ p =>
    match (e.turn p).rest with
    | .inl r => [.adapterReplied r]
    | .inr _ => []
  | .wiring _ _ _ _ _ p =>
    match (e.turn p).rest with
    | .inl r => [.strategyReplied r]
    | .inr _ => []
  | _ => []

/-- The initialisation that has begun since the engine was `e`. -/
def begun (e e' : Engine ω ς) : List (Effect ω ς) :=
  if e'.actions.size = e.actions.size then []
  else
    match e'.phase with
    | .settingUp _ a p => [.adapterBegins a e'.world p]
    | .wiring _ x _ current _ p => [.strategyBegins x current p]
    | _ => []

def effecting (e : Engine ω ς) : Move ω → List (Effect ω ς)
  | .work => if e.isAsleep then [] else e.replied ++ e.begun e.work
  | _ => []

def effects (e : Engine ω ς) (σ : Schedule ω) : Nat → List (Effect ω ς)
  | 0 => []
  | n + 1 => e.effects σ n ++ (e.after σ n).effecting (σ n)

/-- The calls that effects are recorded as. -/
def callsOf (seen : List (Effect ω ς)) : List Event := (seen.filterMap Effect.call?).map .call

/-! ## How an assembly stands -/

def Phase.Assembling : Phase ω ς → Prop
  | .loading | .settingUp _ _ _ | .wiring _ _ _ _ _ _ => True
  | .idle | .checking _ | .fetching _ _ | .executing _ _ _ _ _ | .alerting _ | .pausing _ _
  | .leaving _ => False

/-- A strategy in its place, whatever its state. -/
def seat (i : Wired ω ς) : Market × String × Strategy ω ς := (i.market, i.strategyId, i.strategy)

/-- The run is the one that was put together, and up to the end of the first cycle its strategies
are in the states that their initialisation left. -/
structure IsRun (c : Config) (x : Exchange ω) (ws : List (Wired ω ς)) (count : Nat)
    (run : Run ω ς) : Prop where
  settings : run.settings = c.engine
  exchange : run.exchange = x
  seats : run.markets.map seat = ws.map seat
  first : count = 0 → run.markets = ws

/-- The engine works with the run that was put together, or has left its loop. -/
def WorksWith (c : Config) (x : Exchange ω) (ws : List (Wired ω ς)) (count : Nat) :
    Phase ω ς → Prop
  | .checking run | .fetching run _ | .pausing run _ => IsRun c x ws count run
  | .executing run finished current left _ =>
    IsRun c x ws count run ∧ (finished ++ current :: left).map seat = ws.map seat
  | .idle | .alerting _ | .leaving .ok => True
  | .loading | .settingUp _ _ _ | .wiring _ _ _ _ _ _ | .leaving _ => False

/-- The start ends like this because the run could not be put together: it is about to return the
error, has returned it with the engine shut down, or has broken off. -/
inductive FailsWith (e : Engine ω ς) : StartEnd → Prop
  | leaving {error : EngineError} : e.phase = .leaving (.error error) →
      FailsWith e (.error error)
  | returned {error : EngineError} {others : List (Option StartEnd)} : e.phase = .idle →
      e.lifecycle = .shutdown → e.starts = some (.error error) :: others →
      FailsWith e (.error error)
  | brokenOff {c : Crash} {others : List (Option StartEnd)} : e.phase = .idle →
      e.lifecycle = .running → e.starts = some (.crash c) :: others → FailsWith e (.crash c)

/-- Where the engine stands when its tasks have come so far, with the events of its run. -/
def Stands (e : Engine ω ς) (h : List Event) (seen : List (Effect ω ς)) :
    Progress ω ς → Prop
  | .underWay => e.phase.Assembling ∧ h = callsOf seen
  | .ready ws => callsOf seen <+: h ∧ (∀ error, e.starts.head? ≠ some (some (.error error))) ∧
      ∃ c a, e.setup.source.load = .ok c ∧
        e.setup.registry.adapter? c.exchange.adapter = some a ∧
        List.Forall₂ (IsWired c e.setup.registry) c.enabledMarkets ws ∧
        WorksWith c a.exchange ws e.cycles e.phase
  | .failed r => e.FailsWith r ∧ h = callsOf seen

/-- Where an assembly stands in its plan, by the phase that the engine is in. -/
inductive Assembled (ts : List (Task ω ς)) (e : Engine ω ς) (h : List Event) :
    List (Effect ω ς) → Prop
  | unbegun : e.lifecycle = .notStarted ∨ e.phase = .loading → h = [] → Assembled ts e h []
  | settingUp {c : Config} {a : Adapter ω} {later : List (Task ω ς)} {b : Effect ω ς}
      {q : Program ω (Except Fault Unit)} : e.setup.source.load = .ok c →
      e.setup.registry.adapter? c.exchange.adapter = some a →
      ts = .setUp a c.exchange :: later →
      List.Forall₂ (Serves c e.setup.registry a.exchange) c.enabledMarkets later →
      (Task.setUp a c.exchange).Begins b → e.phase = .settingUp c a q → h = callsOf [b] →
      Assembled ts e h [.loaded (.ok c), b]
  | wiring {c : Config} {a : Adapter ω} {done later : List (Task ω ς)} {m : Config.Market}
      {cs : Config.Strategy} {strategy : Strategy ω ς} {ready : List (Wired ω ς)}
      {left : List Config.Market} {es : List (Effect ω ς)} {b : Effect ω ς}
      {q : Program ω (Except StrategyFault Unit × ς)} : e.setup.source.load = .ok c →
      e.setup.registry.adapter? c.exchange.adapter = some a →
      ts = done ++ .prepare a.exchange m cs strategy :: later →
      List.Forall₂ (Serves c e.setup.registry a.exchange) left later →
      Performs done es (.ready ready) → (Task.prepare a.exchange m cs strategy).Begins b →
      e.phase = .wiring c a.exchange ready (newInstance m cs strategy) left q →
      h = callsOf (es ++ [b]) → Assembled ts e h (.loaded (.ok c) :: (es ++ [b]))
  | decided {es : List (Effect ω ς)} {p : Progress ω ς} : Performs ts es p → p ≠ .underWay →
      e.lifecycle ≠ .notStarted → e.Stands h es p →
      Assembled ts e h (.loaded e.setup.source.load :: es)

variable {e e' d : Engine ω ς} {ts : List (Task ω ς)} {h hist evs : List Event}
  {seen : List (Effect ω ς)}

theorem isInit_callsOf (es : List (Effect ω ς)) : ∀ ev ∈ callsOf es, ev.IsInit := by
  intro ev hm
  obtain ⟨a, ha, rfl⟩ := List.mem_map.mp hm
  obtain ⟨b, -, hb⟩ := List.mem_filterMap.mp ha
  cases b with
  | adapterBegins | strategyBegins =>
    cases hb
    trivial
  | loaded | adapterReplied | strategyReplied => cases hb

theorem begun_congr (ha : d.actions = e.actions) (e' : Engine ω ς) : d.begun e' = e.begun e' := by
  simp [begun, ha]

theorem begun_of_same (ha : e'.actions = e.actions) : e.begun e' = [] := by
  simp [begun, ha]

/-! ## One move -/

/-- After all tasks so far, the next strategy is prepared, or there is none. -/
theorem Wires.assembled {c : Config} {a : Adapter ω} {ready : List (Wired ω ς)}
    {left : List Config.Market} {done later : List (Task ω ς)} {es : List (Effect ω ς)}
    {others : List (Option StartEnd)} (hw : Wires d c a.exchange ready left evs e')
    (hpl : Plans d.setup ts) (hl : d.setup.source.load = .ok c)
    (ha : d.setup.registry.adapter? c.exchange.adapter = some a) (hts : ts = done ++ later)
    (hs : List.Forall₂ (Serves c d.setup.registry a.exchange) left later)
    (hp : Performs done es (.ready ready)) (hh : h = callsOf es)
    (hrun : d.lifecycle = .running) (hst : d.starts = none :: others) :
    Assembled ts e' (h ++ evs) (.loaded (.ok c) :: (es ++ d.begun e')) := by
  subst hts hh
  cases hw with
  -- No market is left, so there is no task left either, and the run is what the tasks have wired.
  | enters =>
    cases hs
    rw [List.append_nil] at hpl ⊢
    have hwired := hpl.isWired hl ha hp
    rw [begun_of_same (e := d), List.append_nil, List.append_nil, ← hl]
    · refine .decided hp (by simp) (by simp [hrun]) ⟨List.prefix_rfl, ?_, c, a, hl, ha, hwired, ?_⟩
      · simp [hst]
      · exact ⟨rfl, rfl, rfl, fun _ => rfl⟩
    · rfl
  -- In the other cases the next task is the one that serves the next market. The move finds in the
  -- configuration and in the registry what the task was made from, so a rule and a task that do not
  -- fit contradict each other.
  | unlisted hn =>
    cases hs with
    | cons ht _ =>
      cases ht with
      | prepares hc | refuses hc => cases hc.strategy?.symm.trans hn
  | unknown hn hr =>
    cases hs with
    | cons ht _ =>
      cases ht with
      | prepares hc hr' =>
        cases hc.strategy?.symm.trans hn
        cases hr'.symm.trans hr
      | refuses hc =>
        cases hc.strategy?.symm.trans hn
        rw [begun_of_same (e := d), ← hl]
        · exact .decided (hp.snoc (.refuses rfl) (by simp)) (by simp) (by simp [hrun])
            ⟨.leaving rfl, by simp⟩
        · rfl
  | inits hn hr =>
    cases hs with
    | cons ht hs =>
      cases ht with
      | refuses hc hr' =>
        cases hc.strategy?.symm.trans hn
        cases hr'.symm.trans hr
      | prepares hc hr' =>
        cases hc.strategy?.symm.trans hn
        cases hr'.symm.trans hr
        simp only [begun, Array.size_push, Nat.succ_ne_self, if_false]
        refine .wiring hl ha rfl hs hp (.strategy _ _ _ _) rfl ?_
        simp [callsOf, Effect.call?, marketOf]

/-- The adapter's initialisation begins, or there is no way on. -/
theorem Assembled.step_loading (hpl : Plans e.setup ts) (hp : e.phase = .loading)
    (hrun : e.lifecycle = .running) (st : Step e evs e') :
    Assembled ts e' evs (e.replied ++ e.begun e') := by
  have hr : e.replied = [.loaded e.setup.source.load] := by simp [replied, hp]
  rw [hr]
  -- A rule and a plan are each about one outcome of the loading and one of the look into the
  -- registry. Only the pairs that agree on both are possible.
  cases st with
  | loadFails _ hl =>
    cases hpl with
    | unloadable hl' =>
      cases hl.symm.trans hl'
      rw [begun_of_same (e := e)]
      · exact .decided (.stops (.refuses rfl) (by simp)) (by simp) (by simp [hrun])
          ⟨.leaving rfl, rfl⟩
      · rfl
    | adapterless hl' | full hl' => cases hl.symm.trans hl'
  | adapterUnknown _ hl ha =>
    cases hpl with
    | unloadable hl' => cases hl.symm.trans hl'
    | adapterless hl' ha' =>
      cases hl.symm.trans hl'
      rw [begun_of_same (e := e)]
      · exact .decided (.stops (.refuses rfl) (by simp)) (by simp) (by simp [hrun])
          ⟨.leaving rfl, rfl⟩
      · rfl
    | full hl' ha' =>
      cases hl.symm.trans hl'
      cases ha.symm.trans ha'
  | loads _ hl ha =>
    cases hpl with
    | unloadable hl' => cases hl.symm.trans hl'
    | adapterless hl' ha' =>
      cases hl.symm.trans hl'
      cases ha.symm.trans ha'
    | full hl' ha' hserves =>
      cases hl.symm.trans hl'
      cases ha.symm.trans ha'
      simp only [begun, Array.size_push, Nat.succ_ne_self, if_false, hl]
      exact .settingUp hl ha rfl hserves (.adapter _ _ _) rfl rfl
  | waits hsus hp' =>
    rw [hp] at hp'
    cases hsus <;> cases hp'
  | setsUp hp' | strategyReady hp' | begins hp' | passes hp' | executes hp' | skips hp' =>
    cases hp.symm.trans hp'
  | _ => simp_all

/-- The adapter's initialisation waits, fails, or goes well. -/
theorem Assembled.step_settingUp {c : Config} {a : Adapter ω} {later : List (Task ω ς)}
    {b : Effect ω ς} {q : Program ω (Except Fault Unit)} {others : List (Option StartEnd)}
    (hpl : Plans e.setup ts) (hl : e.setup.source.load = .ok c)
    (ha : e.setup.registry.adapter? c.exchange.adapter = some a)
    (hts : ts = .setUp a c.exchange :: later)
    (hserves : List.Forall₂ (Serves c e.setup.registry a.exchange) c.enabledMarkets later)
    (hb : (Task.setUp a c.exchange).Begins b)
    (hp : e.phase = .settingUp c a q) (hrun : e.lifecycle = .running)
    (hst : e.starts = none :: others) (ho : AllRefused others) (st : Step e evs e') :
    Assembled ts e' (callsOf [b] ++ evs) (.loaded (.ok c) :: b :: (e.replied ++ e.begun e')) := by
  have hs := SameStart.turn e q
  -- A reply is no call, so that the calls stay the same when one is learned.
  have hcalls (r : Except Fault Unit) :
      callsOf [b, .adapterReplied r] = callsOf ([b] : List (Effect ω ς)) := by
    simp [callsOf, Effect.call?, List.filterMap_cons]
  cases st with
  | waits hsus hp' ht =>
    rw [hp] at hp'
    cases hsus <;> cases hp'
    rw [begun_of_same (e := e)]
    · simp only [replied, hp, ht, List.append_nil]
      exact .settingUp (by simpa using hl) (by simpa using ha) hts (by simpa using hserves) hb
        rfl rfl
    · simp
  -- A reply that is no success decides the assembly: this task is the last one performed.
  | setUpFails hp' ht =>
    cases hp.symm.trans hp'
    rw [begun_of_same (e := e)]
    · simp only [replied, hp, ht, List.append_nil]
      subst hts
      rw [← hl, ← hs.setup, ← hcalls]
      exact .decided (.stops (.ends hb (.setUpFails _)) (by simp)) (by simp) (by simp [hrun])
        ⟨.leaving rfl, rfl⟩
    · simp
  | setUpCrashes hp' ht =>
    cases hp.symm.trans hp'
    rw [begun_of_same (e := e)]
    · simp only [replied, hp, ht, List.append_nil]
      subst hts
      rw [← hl, ← hs.setup, ← hcalls]
      refine .decided (.stops (.ends hb (.setUpCrashes _)) (by simp)) (by simp) (by simp [hrun])
        ⟨?_, rfl⟩
      exact .brokenOff rfl (by simpa using hrun) ((hs.concluded _).trans (ho.concluded hst _))
    · simp
  -- With a success the task is done, and what the move does besides is the wiring of the first
  -- strategy.
  | setsUp hp' ht hw =>
    cases hp.symm.trans hp'
    subst hts
    rw [← begun_congr (afterTurn_actions e q)]
    simp only [replied, hp, ht]
    exact hw.assembled (by simpa using hpl) (by simpa using hl) (by simpa using ha)
      List.singleton_append.symm (by simpa using hserves) (.single (.ends hb .isSetUp))
      (hcalls _).symm (by simpa using hrun) (by simpa using hst)
  -- All other rules start from another phase.
  | strategyReady hp' | begins hp' | passes hp' | executes hp' | skips hp' =>
    cases hp.symm.trans hp'
  | _ => simp_all

/-- A strategy's initialisation waits, fails, or goes well. -/
theorem Assembled.step_wiring {c : Config} {a : Adapter ω} {done later : List (Task ω ς)}
    {m : Config.Market} {cs : Config.Strategy} {strategy : Strategy ω ς}
    {ready : List (Wired ω ς)} {left : List Config.Market} {es : List (Effect ω ς)}
    {b : Effect ω ς} {q : Program ω (Except StrategyFault Unit × ς)}
    {others : List (Option StartEnd)} (hpl : Plans e.setup ts)
    (hl : e.setup.source.load = .ok c)
    (ha : e.setup.registry.adapter? c.exchange.adapter = some a)
    (hts : ts = done ++ .prepare a.exchange m cs strategy :: later)
    (hserves : List.Forall₂ (Serves c e.setup.registry a.exchange) left later)
    (hdone : Performs done es (.ready ready))
    (hb : (Task.prepare a.exchange m cs strategy).Begins b)
    (hp : e.phase = .wiring c a.exchange ready (newInstance m cs strategy) left q)
    (hrun : e.lifecycle = .running) (hst : e.starts = none :: others) (ho : AllRefused others)
    (st : Step e evs e') :
    Assembled ts e' (callsOf (es ++ [b]) ++ evs)
      (.loaded (.ok c) :: (es ++ [b] ++ (e.replied ++ e.begun e'))) := by
  have hs := SameStart.turn e q
  -- As for the adapter, learning a reply adds no call.
  have hcalls (r : Except StrategyFault Unit × ς) :
      callsOf (es ++ [b, .strategyReplied r]) = callsOf (es ++ [b]) := by
    simp [callsOf, Effect.call?, List.filterMap_cons]
  subst hts
  -- The rules are those of the adapter's initialisation once more, but this task stands behind
  -- others. `hdone` is what they came to, and each case adds the reply at its end.
  cases st with
  | waits hsus hp' ht =>
    rw [hp] at hp'
    cases hsus <;> cases hp'
    rw [begun_of_same (e := e)]
    · simp only [replied, hp, ht, List.append_nil]
      exact .wiring (by simpa using hl) (by simpa using ha) rfl (by simpa using hserves) hdone hb
        rfl rfl
    · simp
  -- The strategy refuses or crashes: this task is the last one performed.
  | strategyFails hp' ht hfault =>
    cases hp.symm.trans hp'
    rw [begun_of_same (e := e)]
    · simp only [replied, hp, ht, List.append_nil]
      rw [← hl, ← hs.setup, ← hcalls, List.append_assoc]
      exact .decided (hdone.snoc (.ends hb (.preparingFails _ hfault)) (by simp)) (by simp)
        (by simp [hrun]) ⟨.leaving rfl, rfl⟩
    · simp
  | strategyCrashes hp' ht =>
    cases hp.symm.trans hp'
    rw [begun_of_same (e := e)]
    · simp only [replied, hp, ht, List.append_nil]
      rw [← hl, ← hs.setup, ← hcalls, List.append_assoc]
      refine .decided (hdone.snoc (.ends hb (.preparingCrashes _ _)) (by simp)) (by simp)
        (by simp [hrun]) ⟨?_, rfl⟩
      exact .brokenOff rfl (by simpa using hrun) ((hs.concluded _).trans (ho.concluded hst _))
    · simp
  -- It is ready: one more task is done, and the move goes on to the next strategy or into the loop.
  | @strategyReady _ _ _ _ _ _ state _ _ hp' ht hw =>
    cases hp.symm.trans hp'
    rw [← begun_congr (afterTurn_actions e q)]
    simp only [replied, hp, ht]
    have hall := hdone.append rfl (.single (.ends hb (.isPrepared state)))
    rw [← hcalls, ← List.append_assoc, List.append_assoc es]
    exact hw.assembled (by simpa using hpl) (by simpa using hl) (by simpa using ha)
      (List.append_cons ..) (by simpa using hserves) hall rfl (by simpa using hrun)
      (by simpa using hst)
  -- All other rules start from another phase.
  | setsUp hp' | begins hp' | passes hp' | executes hp' | skips hp' =>
    cases hp.symm.trans hp'
  | _ => simp_all

/-! ## After the last task -/

section

variable {c : Config} {x : Exchange ω} {ws : List (Wired ω ς)} {run : Run ω ς}

theorem Rests.worksWith (hr : Rests d run e') (hset : run.settings = c.engine)
    (hx : run.exchange = x) (hs : run.markets.map seat = ws.map seat) :
    WorksWith c x ws e'.cycles e'.phase := by
  cases hr with
  | pauses => exact ⟨hset, hx, hs, by simp⟩
  | breaksOff => trivial

theorem Dispatches.worksWith {finished left : List (Wired ω ς)}
    (hd : Dispatches d run finished left evs e') (hrun : IsRun c x ws d.cycles run)
    (hs : (finished ++ left).map seat = ws.map seat) : WorksWith c x ws e'.cycles e'.phase := by
  cases hd with
  | ends hr => exact hr.worksWith hrun.settings hrun.exchange (by simpa using hs)
  | executes => exact ⟨hrun, hs⟩

theorem WorksWith.step (hw : WorksWith c x ws e.cycles e.phase) (st : Step e evs e') :
    WorksWith c x ws e'.cycles e'.phase := by
  cases st with
  | waits hsus hp =>
    rw [hp] at hw
    rw [afterTurn_cycles]
    cases hsus <;> exact hw
  | loadFails hp | adapterUnknown hp | loads hp | setUpFails hp | setUpCrashes hp | setsUp hp
  | strategyFails hp | strategyCrashes hp | strategyReady hp =>
    rw [hp] at hw
    exact hw.elim
  | seesStop | fetchIsFatal | executeIsFatal | alerted | leaves => trivial
  | fetches hp | resumes hp =>
    rw [hp] at hw
    exact hw
  | ticks => exact hw
  | begins hp _ _ hd =>
    rw [hp] at hw
    exact hd.worksWith hw hw.seats
  | passes hp _ _ _ hd =>
    rw [hp, ← afterTurn_cycles e] at hw
    exact hd.worksWith hw hw.seats
  | skips hp _ hr =>
    rw [hp] at hw
    exact hr.worksWith hw.settings hw.exchange hw.seats
  | executes hp _ hd =>
    rw [hp, ← afterTurn_cycles e] at hw
    exact hd.worksWith hw.1 (by simpa [seat] using hw.2)

theorem WorksWith.not_assembling {count : Nat} {p : Phase ω ς} (hw : WorksWith c x ws count p) :
    ¬ p.Assembling := by
  cases p with
  | loading | settingUp | wiring => exact hw.elim
  | _ => exact id

end

theorem replied_of_not_assembling (hp : ¬ e.phase.Assembling) : e.replied = [] := by
  unfold replied
  split
  · next h => simp [h, Phase.Assembling] at hp
  · next h => simp [h, Phase.Assembling] at hp
  · next h => simp [h, Phase.Assembling] at hp
  · rfl

theorem begun_of_not_assembling (hp : ¬ e'.phase.Assembling) : e.begun e' = [] := by
  unfold begun
  split
  · rfl
  · split
    · next h => simp [h, Phase.Assembling] at hp
    · next h => simp [h, Phase.Assembling] at hp
    · rfl

theorem FailsWith.not_assembling {r : StartEnd} (h : e.FailsWith r) : ¬ e.phase.Assembling := by
  cases h with
  | leaving hp | returned hp | brokenOff hp => simp [hp, Phase.Assembling]

theorem FailsWith.head?_starts {r : StartEnd} (h : e.FailsWith r) (hi : e.phase = .idle) :
    r ≠ .ok ∧ e.starts.head? = some (some r) := by
  cases h with
  | leaving hp => cases hi.symm.trans hp
  | returned _ _ hst | brokenOff _ _ hst => simp [hst]

theorem Stands.not_assembling {p : Progress ω ς} (h : e.Stands hist seen p) (hp : p ≠ .underWay) :
    ¬ e.phase.Assembling := by
  cases p with
  | underWay => exact absurd rfl hp
  | ready ws =>
    obtain ⟨-, -, c, a, -, -, -, hw⟩ := h
    exact hw.not_assembling
  | failed r => exact h.1.not_assembling

theorem FailsWith.step {r : StartEnd} (h : e.FailsWith r) (hs : Standing e) (hi : e.phase ≠ .idle)
    (st : Step e evs e') : e'.FailsWith r ∧ evs = [] := by
  cases h with
  | returned hp | brokenOff hp => exact absurd hp hi
  | leaving hp =>
    obtain ⟨rfl, lines, rfl⟩ := st.of_leaving hp
    cases hs with
    | unstarted _ hp' | broken _ hp' | returned _ hp' => exact absurd hp' hi
    | atWork _ _ _ hst ho => exact ⟨.returned rfl rfl (ho.concluded hst _), rfl⟩

/-- The start of a run that works ends well or breaks off, if it ends. -/
theorem WorksWith.no_error {c : Config} {x : Exchange ω} {ws : List (Wired ω ς)}
    (hw : WorksWith c x ws e.cycles e.phase) (hs : Standing e) (hi : e.phase ≠ .idle)
    (st : Step e evs e') (error : EngineError) :
    e'.starts.head? ≠ some (some (.error error)) := by
  cases hs with
  | unstarted _ hp | broken _ hp | returned _ hp => exact absurd hp hi
  | atWork _ _ _ hst ho =>
    cases st.outcome with
    | goesOn _ hs' => simp [hs', hst]
    | breaksOff _ _ hs' => simp [hs', ho.concluded hst]
    | @returns r hp _ hs' =>
      rw [hp] at hw
      cases r with
      | ok => simp [hs', ho.concluded hst]
      | error | crash => exact hw.elim

theorem Stands.step {p : Progress ω ς} (h : e.Stands hist seen p) (hp : p ≠ .underWay)
    (hs : Standing e) (hi : e.phase ≠ .idle) (st : Step e evs e') :
    e'.Stands (hist ++ evs) seen p := by
  cases p with
  | underWay => exact absurd rfl hp
  | ready ws =>
    obtain ⟨hpre, hres, c, a, hl, ha, hwired, hw⟩ := h
    rw [← st.stays.setup] at hl ha hwired
    exact ⟨hpre.trans (List.prefix_append _ _), hw.no_error hs hi st, c, a, hl, ha, hwired,
      hw.step st⟩
  | failed r =>
    obtain ⟨hf, rfl⟩ := h
    obtain ⟨hf', rfl⟩ := hf.step hs hi st
    exact ⟨hf', List.append_nil _⟩

theorem Assembled.step (ha : Assembled ts e hist seen) (hpl : Plans e.setup ts)
    (hs : Standing e) (hi : e.phase ≠ .idle) (st : Step e evs e') :
    Assembled ts e' (hist ++ evs) (seen ++ (e.replied ++ e.begun e')) := by
  cases hs with
  | unstarted _ hp | broken _ hp | returned _ hp => exact absurd hp hi
  | atWork hrun hp hret hst ho =>
    cases ha with
    | unbegun hnew hh =>
      subst hh
      refine step_loading hpl (hnew.resolve_left fun h => ?_) hrun st
      cases h.symm.trans hrun
    | settingUp hl ha hts hserves hb hp hh =>
      subst hh
      exact step_settingUp hpl hl ha hts hserves hb hp hrun hst ho st
    | wiring hl ha hts hserves hdone hb hp hh =>
      subst hh
      exact step_wiring hpl hl ha hts hserves hdone hb hp hrun hst ho st
    | decided hperf hne _ hstands =>
      have hstands' := hstands.step hne (.atWork hrun hp hret hst ho) hi st
      have hclaimed : e'.lifecycle ≠ .notStarted := by
        rcases st.stays.lifecycle with h | h <;> simp [h, hrun]
      rw [replied_of_not_assembling (hstands.not_assembling hne),
        begun_of_not_assembling (hstands'.not_assembling hne), List.append_nil, List.append_nil,
        ← st.stays.setup]
      exact .decided hperf hne hclaimed hstands'

/-- Only the time, the world, the request to stop or the calls of start that are refused differ. -/
structure SameRun (e e' : Engine ω ς) : Prop where
  phase : e'.phase = e.phase
  setup : e'.setup = e.setup
  lifecycle : e'.lifecycle = e.lifecycle
  cycles : e'.cycles = e.cycles
  starts : ∃ added, e'.starts = e.starts ++ added ∧ (e.starts = [] → added = [])

theorem SameRun.cons (hr : SameRun e e') {call : Option StartEnd}
    {others : List (Option StartEnd)} (h : e.starts = call :: others) :
    ∃ others', e'.starts = call :: others' := by
  obtain ⟨added, hadd, -⟩ := hr.starts
  exact ⟨others ++ added, by rw [hadd, h, List.cons_append]⟩

theorem SameRun.head? (hr : SameRun e e') : e'.starts.head? = e.starts.head? := by
  cases hst : e.starts with
  | nil =>
    obtain ⟨added, hadd, hnone⟩ := hr.starts
    rw [hadd, hst, hnone hst, List.append_nil]
  | cons =>
    obtain ⟨others, hst'⟩ := hr.cons hst
    rw [hst', List.head?_cons, List.head?_cons]

theorem Stands.congr {p : Progress ω ς} (h : e.Stands hist seen p) (hr : SameRun e e') :
    e'.Stands hist seen p := by
  cases p with
  | underWay => exact ⟨hr.phase ▸ h.1, h.2⟩
  | ready ws => simpa [Stands, hr.phase, hr.setup, hr.cycles, hr.head?] using h
  | failed r =>
    obtain ⟨hf, hh⟩ := h
    refine ⟨?_, hh⟩
    cases hf with
    | leaving hp => exact .leaving (hr.phase.trans hp)
    | returned hp hl hst =>
      obtain ⟨others, hst'⟩ := hr.cons hst
      exact .returned (hr.phase.trans hp) (hr.lifecycle.trans hl) hst'
    | brokenOff hp hl hst =>
      obtain ⟨others, hst'⟩ := hr.cons hst
      exact .brokenOff (hr.phase.trans hp) (hr.lifecycle.trans hl) hst'

theorem Assembled.congr (ha : Assembled ts e hist seen) (hr : SameRun e e') :
    Assembled ts e' hist seen := by
  have hset := hr.setup
  cases ha with
  | unbegun hnew hh => exact .unbegun (by rwa [hr.lifecycle, hr.phase]) hh
  | settingUp hl ha hts hserves hb hp hh =>
    rw [← hset] at hl ha hserves
    exact .settingUp hl ha hts hserves hb (hr.phase.trans hp) hh
  | wiring hl ha hts hserves hdone hb hp hh =>
    rw [← hset] at hl ha hserves
    exact .wiring hl ha hts hserves hdone hb (hr.phase.trans hp) hh
  | decided hperf hne hclaimed hstands =>
    rw [← hset]
    exact .decided hperf hne (hr.lifecycle ▸ hclaimed) (hstands.congr hr)

/-- A move that is none of the start at work means nothing to an assembly. -/
theorem Follows.sameRun {m : Move ω} (hm : Follows e m evs e') (hs : Standing e)
    (hl : e.lifecycle ≠ .notStarted) (hn : m ≠ .work) : SameRun e e' := by
  cases hm with
  | claims hnew => exact absurd hnew hl
  | refused =>
    refine ⟨rfl, rfl, rfl, rfl, _, rfl, fun hnone => ?_⟩
    obtain ⟨_, _, hst, -⟩ := hs.record hl
    cases hnone.symm.trans hst
  | asked | passes | changes => exact ⟨rfl, rfl, rfl, rfl, [], by simp, fun _ => rfl⟩
  | holds | steps => exact absurd rfl hn

theorem effecting_of_ne {m : Move ω} (hm : m ≠ .work) : e.effecting m = [] := by
  cases m with
  | work => exact absurd rfl hm
  | _ => rfl

theorem showing_of_ne {m : Move ω} (hm : m ≠ .work) : e.showing m = [] := by
  cases m with
  | work => exact absurd rfl hm
  | _ => rfl

/-- A start that sleeps, and one that is not at work, has no effects. -/
theorem effecting_of_still (h : e.isAsleep = true ∨ e.phase = .idle) : e.effecting .work = [] := by
  rcases h with h | h
  · simp [effecting, h]
  · rw [effecting, work_eq_self (.inr h), begun_of_same rfl,
      replied_of_not_assembling (by simp [h, Phase.Assembling])]
    simp

/-- Once the last task has been performed, nothing more is put together. -/
theorem Stands.move {p : Progress ω ς} (h : e.Stands hist seen p) (hp : p ≠ .underWay)
    (hs : Standing e) (hl : e.lifecycle ≠ .notStarted) (m : Move ω) :
    (e.move m).Stands (hist ++ e.showing m) seen p ∧ e.effecting m = [] := by
  have hm := move_follows e m
  by_cases hwork : m = .work
  · subst hwork
    by_cases hstill : e.isAsleep = true ∨ e.phase = .idle
    · rw [effecting_of_still hstill, showing, shown_eq_nil hstill, Engine.move,
        work_eq_self hstill, List.append_nil]
      exact ⟨h, rfl⟩
    · rw [not_or, Bool.not_eq_true] at hstill
      have h' := h.step hp hs hstill.2 (work_step hstill.1 hstill.2)
      rw [effecting, hstill.1, replied_of_not_assembling (h.not_assembling hp),
        begun_of_not_assembling (h'.not_assembling hp)]
      exact ⟨h', rfl⟩
  · rw [showing_of_ne hwork, effecting_of_ne hwork, List.append_nil]
    exact ⟨h.congr (hm.sameRun hs hl hwork), rfl⟩

theorem Assembled.move (ha : Assembled ts e hist seen) (hpl : Plans e.setup ts)
    (hs : Standing e) (m : Move ω) :
    Assembled ts (e.move m) (hist ++ e.showing m) (seen ++ e.effecting m) := by
  have hm := move_follows e m
  by_cases hwork : m = .work
  · subst hwork
    by_cases hstill : e.isAsleep = true ∨ e.phase = .idle
    · rw [effecting_of_still hstill, showing, shown_eq_nil hstill, Engine.move,
        work_eq_self hstill, List.append_nil, List.append_nil]
      exact ha
    · rw [not_or, Bool.not_eq_true] at hstill
      rw [effecting, hstill.1]
      exact ha.step hpl hs hstill.2 (work_step hstill.1 hstill.2)
  · rw [showing_of_ne hwork, effecting_of_ne hwork, List.append_nil, List.append_nil]
    by_cases hl : e.lifecycle = .notStarted
    · have hempty : seen = [] ∧ hist = [] := by
        cases ha with
        | unbegun _ hh => exact ⟨rfl, hh⟩
        | settingUp _ _ _ _ _ hp => cases (hs.idle_of_notStarted hl).1.symm.trans hp
        | wiring _ _ _ _ _ _ hp => cases (hs.idle_of_notStarted hl).1.symm.trans hp
        | decided _ _ hclaimed => exact absurd hl hclaimed
      obtain ⟨rfl, rfl⟩ := hempty
      refine .unbegun ?_ rfl
      generalize e.move m = e', e.showing m = evs at hm ⊢
      cases hm with
      | claims => exact .inr rfl
      | refused hne => exact absurd hl hne
      | asked | passes | changes => exact .inl hl
      | holds | steps => exact absurd rfl hwork
    · exact ha.congr (hm.sameRun hs hl hwork)

end Engine

end TradingBot
