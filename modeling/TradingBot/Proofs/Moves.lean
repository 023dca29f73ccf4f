import TradingBot.Engine.Step

/-!
# What one move can do

**Events** (`Event`). What an observer of an engine notes: the calls that it makes, the replies of
the exchange and of the strategies, and where a trade cycle begins and ends. `Engine.shown` lists
the events of one move: a reply that arrives, the calls that were recorded, and the end of a cycle.

**The rules** (`Engine.Step`). All that a move of the start at work can do, one rule for each way
through the program. A rule names the phase before the move and what it depends on, and gives the
engine after it, up to its log lines.

**Theorem (`Engine.work_step`).** Each move of a start that is at work and awake follows one of the
rules, with the events shown.

What all rules leave as it is is stated once (`Engine.Stays`), as is what the rules of one phase can
do (`Engine.Step.of_checking` and its like).
-/

namespace TradingBot

/-- What an observer of an engine notes. -/
inductive Event where
  /-- The loop begins a trade cycle. -/
  | began
  /-- A cycle has ended without a fatal condition. -/
  | ended
  /-- The loop is left because a stop was requested. -/
  | stopSeen
  | call (a : Engine.Action)
  /-- The exchange's reply to the engine's own question for balances. -/
  | balances (r : Except Fault Balances)
  | executed (marketId : String) (r : Except StrategyFault Unit)

def Event.call? : Event → Option Engine.Action
  | .call a => some a
  | _ => none

namespace Engine

variable {ω ς α : Type}

/-! ## The events of a move -/

/-- What a program does from now on up to its end or its next wait. -/
def turn (e : Engine ω ς) (p : Program ω α) : Program.Turn ω α := p.resume e.time e.world

/-- What the next move learns: a reply, or at the top of the loop whether to go on. -/
def learned (e : Engine ω ς) : List Event :=
  match e.phase with
  | .checking _ => [if e.stopRequested then .stopSeen else .began]
  | .fetching _ p =>
    match (e.turn p).rest with
    | .inl r => [.balances r]
    | .inr _ => []
  | .executing _ _ current _ p =>
    match (e.turn p).rest with
    | .inl (r, _) => [.executed current.market.id r]
    | .inr _ => []
  | _ => []

/-- The calls that an engine has recorded and the ends of cycles that it has counted since it was
`e`. -/
def news (e e' : Engine ω ς) : List Event :=
  (e'.actions.toList.drop e.actions.size).map .call ++ List.replicate (e'.cycles - e.cycles) .ended

/-- The events of the next move of the start at work. -/
def shown (e : Engine ω ς) : List Event :=
  if e.isAsleep then [] else e.learned ++ e.news e.work

theorem news_of_same {e e' : Engine ω ς} (ha : e'.actions = e.actions) (hc : e'.cycles = e.cycles) :
    e.news e' = [] := by
  simp [news, ha, hc]

theorem news_of_call {e e' : Engine ω ς} {a : Action} (ha : e'.actions = e.actions.push a)
    (hc : e'.cycles = e.cycles) : e.news e' = [.call a] := by
  simp [news, ha, hc]

theorem news_of_end {e e' : Engine ω ς} (ha : e'.actions = e.actions)
    (hc : e'.cycles = e.cycles + 1) : e.news e' = [.ended] := by
  simp [news, ha, hc]

theorem news_congr {e d : Engine ω ς} (ha : d.actions = e.actions) (hc : d.cycles = e.cycles)
    (e' : Engine ω ς) : d.news e' = e.news e' := by
  simp [news, ha, hc]

/-! ## After a component's turn -/

/-- The engine after the turn of a component's program, with its control where it was. -/
def afterTurn (e : Engine ω ς) (p : Program ω α) : Engine ω ς :=
  let e' := { e with world := (e.turn p).world, lines := e.lines ++ (e.turn p).lines }
  if (e.turn p).stop then e'.requestStop else e'

theorem requestStop_eq (e : Engine ω ς) :
    e.requestStop = { e with stopRequested := true, lines := e.requestStop.lines } := by
  unfold requestStop
  split
  · next h => cases e; simp_all
  · rfl

theorem afterTurn_eq (e : Engine ω ς) (p : Program ω α) :
    e.afterTurn p =
      { e with
        world := (e.turn p).world
        stopRequested := e.stopRequested || (e.turn p).stop
        lines := (e.afterTurn p).lines } := by
  unfold afterTurn
  cases (e.turn p).stop with
  | true =>
    simp only [if_true, Bool.or_true]
    rw [requestStop_eq]
  | false => simp

section

variable (e : Engine ω ς) (p : Program ω α)

@[simp] theorem afterTurn_setup : (e.afterTurn p).setup = e.setup := by rw [afterTurn_eq]

@[simp] theorem afterTurn_lifecycle : (e.afterTurn p).lifecycle = e.lifecycle := by
  rw [afterTurn_eq]

@[simp] theorem afterTurn_cycles : (e.afterTurn p).cycles = e.cycles := by rw [afterTurn_eq]

@[simp] theorem afterTurn_now : (e.afterTurn p).now = e.now := by rw [afterTurn_eq]

@[simp] theorem afterTurn_wake : (e.afterTurn p).wake = e.wake := by rw [afterTurn_eq]

@[simp] theorem afterTurn_starts : (e.afterTurn p).starts = e.starts := by rw [afterTurn_eq]

@[simp] theorem afterTurn_actions : (e.afterTurn p).actions = e.actions := by rw [afterTurn_eq]

@[simp] theorem afterTurn_stopRequested :
    (e.afterTurn p).stopRequested = (e.stopRequested || (e.turn p).stop) := by rw [afterTurn_eq]

theorem carry_eq (suspend : Program ω α → Phase ω ς) (finish : Engine ω ς → α → Engine ω ς) :
    e.carry p suspend finish =
      match (e.turn p).rest with
      | .inl a => finish (e.afterTurn p) a
      | .inr (ms, q) =>
        { e.afterTurn p with phase := suspend q, wake := (e.afterTurn p).now + ms } :=
  rfl

end

/-! ## The rules -/

/-- The calls of start when the one at work ends with a result. -/
def concluded (e : Engine ω ς) (result : StartEnd) : List (Option StartEnd) :=
  e.starts.map fun r => r.or (some result)

/-- Whether the clock can show the deadline of a pause of so many seconds that begins now. -/
def CanShow (e : Engine ω ς) (seconds : Nat) : Prop :=
  e.setup.clockOrigin + e.now / 1000 + seconds ≤ lastSecond

instance (e : Engine ω ς) (seconds : Nat) : Decidable (e.CanShow seconds) :=
  inferInstanceAs (Decidable (_ ≤ _))

/-- A cycle without a fatal condition has come to its end. -/
inductive Rests (e : Engine ω ς) (run : Run ω ς) : Engine ω ς → Prop
  | pauses {lines : Array LogLine} : e.CanShow run.settings.cycleInterval.toNat →
      Rests e run { e with
        cycles := e.cycles + 1
        phase := .pausing run (e.now + run.settings.cycleInterval.toNat * 1000)
        lines }
  | breaksOff {lines : Array LogLine} : ¬ e.CanShow run.settings.cycleInterval.toNat →
      Rests e run { e with
        cycles := e.cycles + 1
        phase := .idle
        starts := e.concluded (.crash (.text "overflow when adding duration to instant"))
        lines }

/-- The next strategy is executed, or there is none. -/
inductive Dispatches (e : Engine ω ς) (run : Run ω ς) (finished : List (Wired ω ς)) :
    List (Wired ω ς) → List Event → Engine ω ς → Prop
  | ends {e' : Engine ω ς} : Rests e { run with markets := finished } e' →
      Dispatches e run finished [] [.ended] e'
  | executes {w : Wired ω ς} {left : List (Wired ω ς)} {lines : Array LogLine} :
      Dispatches e run finished (w :: left) [.call (.execute w.market.id)] { e with
        phase := .executing run finished w left (w.strategy.execute run.exchange w.state)
        actions := e.actions.push (.execute w.market.id)
        lines }

/-- The next strategy is initialised, or there is none and the loop is entered. -/
inductive Wires (e : Engine ω ς) (config : Config) (x : Exchange ω) (ready : List (Wired ω ς)) :
    List Config.Market → List Event → Engine ω ς → Prop
  | enters {lines : Array LogLine} :
      Wires e config x ready [] [] { e with
        phase := .checking { settings := config.engine, exchange := x, markets := ready }
        lines }
  | unlisted {m : Config.Market} {left : List Config.Market} {lines : Array LogLine} :
      config.strategy? m.strategyId = none →
      Wires e config x ready (m :: left) [] { e with
        phase := .leaving (.error (.unlistedStrategy m.id m.strategyId))
        lines }
  | unknown {m : Config.Market} {left : List Config.Market} {c : Config.Strategy}
      {lines : Array LogLine} :
      config.strategy? m.strategyId = some c → e.setup.registry.strategy? c.className = none →
      Wires e config x ready (m :: left) [] { e with
        phase := .leaving (.error (.unknownStrategy c.className))
        lines }
  | inits {m : Config.Market} {left : List Config.Market} {c : Config.Strategy}
      {s : Strategy ω ς} {lines : Array LogLine} :
      config.strategy? m.strategyId = some c → e.setup.registry.strategy? c.className = some s →
      Wires e config x ready (m :: left) [.call (.initStrategy m.id c.id)] { e with
        phase := .wiring config x ready
          { market := marketOf m, strategyId := c.id, strategy := s, state := s.fresh } left
          (s.init x (marketOf m) c s.fresh)
        actions := e.actions.push (.initStrategy m.id c.id)
        lines }

/-- The phases that wait for a component's program. -/
inductive Suspends : {α : Type} → (Program ω α → Phase ω ς) → Prop
  | settingUp (config : Config) (a : Adapter ω) : Suspends (.settingUp config a)
  | wiring (config : Config) (x : Exchange ω) (ready : List (Wired ω ς)) (current : Wired ω ς)
      (left : List Config.Market) : Suspends (.wiring config x ready current left)
  | fetching (run : Run ω ς) : Suspends (.fetching run)
  | executing (run : Run ω ς) (finished : List (Wired ω ς)) (current : Wired ω ς)
      (left : List (Wired ω ς)) : Suspends (.executing run finished current left)
  | alerting : Suspends .alerting

/-- A move of the start at work, with the events that it shows. -/
inductive Step (e : Engine ω ς) : List Event → Engine ω ς → Prop
  | waits {α : Type} {suspend : Program ω α → Phase ω ς} {p q : Program ω α} {ms : Nat} :
      Suspends suspend → e.phase = suspend p → (e.turn p).rest = .inr (ms, q) →
      Step e [] { e.afterTurn p with phase := suspend q, wake := e.now + ms }
  -- Putting a run together
  | loadFails {error : Config.Error} {lines : Array LogLine} :
      e.phase = .loading → e.setup.source.load = .error error →
      Step e [] { e with phase := .leaving (.error (.config error)), lines }
  | adapterUnknown {config : Config} {lines : Array LogLine} :
      e.phase = .loading → e.setup.source.load = .ok config →
      e.setup.registry.adapter? config.exchange.adapter = none →
      Step e [] { e with
        phase := .leaving (.error (.unknownAdapter config.exchange.adapter)), lines }
  | loads {config : Config} {a : Adapter ω} {lines : Array LogLine} :
      e.phase = .loading → e.setup.source.load = .ok config →
      e.setup.registry.adapter? config.exchange.adapter = some a →
      Step e [.call .initExchange] { e with
        phase := .settingUp config a (a.init config.exchange).run
        world := a.fresh e.world
        actions := e.actions.push .initExchange
        lines }
  | setUpFails {config : Config} {a : Adapter ω} {p : Program ω (Except Fault Unit)}
      {error : ApiError} {lines : Array LogLine} :
      e.phase = .settingUp config a p → (e.turn p).rest = .inl (.error (.error error)) →
      Step e [] { e.afterTurn p with
        phase := .leaving (.error (.adapterFailed config.exchange.adapter error)), lines }
  | setUpCrashes {config : Config} {a : Adapter ω} {p : Program ω (Except Fault Unit)}
      {c : Crash} {lines : Array LogLine} :
      e.phase = .settingUp config a p → (e.turn p).rest = .inl (.error (.crash c)) →
      Step e [] { e.afterTurn p with
        phase := .idle
        starts := (e.afterTurn p).concluded (.crash c)
        lines }
  | setsUp {config : Config} {a : Adapter ω} {p : Program ω (Except Fault Unit)}
      {evs : List Event} {e' : Engine ω ς} :
      e.phase = .settingUp config a p → (e.turn p).rest = .inl (.ok ()) →
      Wires (e.afterTurn p) config a.exchange [] config.enabledMarkets evs e' →
      Step e evs e'
  | strategyFails {config : Config} {x : Exchange ω} {ready : List (Wired ω ς)}
      {current : Wired ω ς} {left : List Config.Market}
      {p : Program ω (Except StrategyFault Unit × ς)} {fault : StrategyFault} {state : ς}
      {message : String} {lines : Array LogLine} :
      e.phase = .wiring config x ready current left p →
      (e.turn p).rest = .inl (.error fault, state) →
      fault = .failure message ∨ (∃ causes, fault = .unexpected message causes) →
      Step e [] { e.afterTurn p with
        phase := .leaving (.error (.strategyFailed current.strategyId current.market.id message))
        lines }
  | strategyCrashes {config : Config} {x : Exchange ω} {ready : List (Wired ω ς)}
      {current : Wired ω ς} {left : List Config.Market}
      {p : Program ω (Except StrategyFault Unit × ς)} {c : Crash} {state : ς}
      {lines : Array LogLine} :
      e.phase = .wiring config x ready current left p →
      (e.turn p).rest = .inl (.error (.crash c), state) →
      Step e [] { e.afterTurn p with
        phase := .idle
        starts := (e.afterTurn p).concluded (.crash c)
        lines }
  | strategyReady {config : Config} {x : Exchange ω} {ready : List (Wired ω ς)}
      {current : Wired ω ς} {left : List Config.Market}
      {p : Program ω (Except StrategyFault Unit × ς)} {state : ς}
      {evs : List Event} {e' : Engine ω ς} :
      e.phase = .wiring config x ready current left p →
      (e.turn p).rest = .inl (.ok (), state) →
      Wires (e.afterTurn p) config x (ready ++ [{ current with state }]) left evs e' →
      Step e evs e'
  -- The loop
  | seesStop {run : Run ω ς} {lines : Array LogLine} :
      e.phase = .checking run → e.stopRequested = true →
      Step e [.stopSeen] { e with phase := .leaving .ok, lines }
  | fetches {run : Run ω ς} :
      e.phase = .checking run → e.stopRequested = false → run.settings.WatchesBalance →
      Step e [.began, .call .fetchBalances] { e with
        phase := .fetching run run.exchange.balances.run
        actions := e.actions.push .fetchBalances }
  | begins {run : Run ω ς} {evs : List Event} {e' : Engine ω ς} :
      e.phase = .checking run → e.stopRequested = false → ¬ run.settings.WatchesBalance →
      Dispatches e run [] run.markets evs e' → Step e (.began :: evs) e'
  | passes {run : Run ω ς} {p : Program ω (Except Fault Balances)} {b : Balances}
      {amount : Decimal} {evs : List Event} {e' : Engine ω ς} :
      e.phase = .fetching run p → (e.turn p).rest = .inl (.ok b) →
      b.availableFor run.settings.stopCurrency = some amount →
      run.settings.stopBalance ≤ amount →
      Dispatches (e.afterTurn p) run [] run.markets evs e' →
      Step e (.balances (.ok b) :: evs) e'
  | skips {run : Run ω ς} {p : Program ω (Except Fault Balances)} {detail : String}
      {e' : Engine ω ς} :
      e.phase = .fetching run p → (e.turn p).rest = .inl (.error (.error (.network detail))) →
      Rests (e.afterTurn p) run e' →
      Step e [.balances (.error (.error (.network detail))), .ended] e'
  | fetchIsFatal {run : Run ω ς} {p : Program ω (Except Fault Balances)}
      {r : Except Fault Balances} {f : Fatal} {lines : Array LogLine} :
      e.phase = .fetching run p → (e.turn p).rest = .inl r →
      BalanceCheck.judge run.settings.stopCurrency run.settings.stopBalance r = .fatal f →
      Step e [.balances r, .call (.alert Fatal.subject f.body)] { e.afterTurn p with
        phase := .alerting ((e.afterTurn p).setup.alerter.send Fatal.subject f.body)
        actions := (e.afterTurn p).actions.push (.alert Fatal.subject f.body)
        lines }
  | executes {run : Run ω ς} {finished : List (Wired ω ς)} {current : Wired ω ς}
      {left : List (Wired ω ς)} {p : Program ω (Except StrategyFault Unit × ς)} {state : ς}
      {evs : List Event} {e' : Engine ω ς} :
      e.phase = .executing run finished current left p →
      (e.turn p).rest = .inl (.ok (), state) →
      Dispatches (e.afterTurn p) run (finished ++ [{ current with state }]) left evs e' →
      Step e (.executed current.market.id (.ok ()) :: evs) e'
  | executeIsFatal {run : Run ω ς} {finished : List (Wired ω ς)} {current : Wired ω ς}
      {left : List (Wired ω ς)} {p : Program ω (Except StrategyFault Unit × ς)}
      {fault : StrategyFault} {state : ς} {lines : Array LogLine} :
      e.phase = .executing run finished current left p →
      (e.turn p).rest = .inl (.error fault, state) →
      Step e [.executed current.market.id (.error fault),
          .call (.alert Fatal.subject (fatalOf fault).body)] { e.afterTurn p with
        phase := .alerting ((e.afterTurn p).setup.alerter.send Fatal.subject (fatalOf fault).body)
        actions := (e.afterTurn p).actions.push (.alert Fatal.subject (fatalOf fault).body)
        lines }
  | alerted {p : Program ω (Except DeliveryFailure Unit)} {r : Except DeliveryFailure Unit}
      {lines : Array LogLine} :
      e.phase = .alerting p → (e.turn p).rest = .inl r →
      Step e [] { e.afterTurn p with stopRequested := true, phase := .leaving .ok, lines }
  | ticks {run : Run ω ς} {deadline : Nat} :
      e.phase = .pausing run deadline → e.stopRequested = false → e.now < deadline →
      Step e [] { e with wake := e.now + min Pause.tick (deadline - e.now) }
  | resumes {run : Run ω ς} {deadline : Nat} {lines : Array LogLine} :
      e.phase = .pausing run deadline → e.stopRequested = true ∨ deadline ≤ e.now →
      Step e [] { e with phase := .checking run, lines }
  | leaves {result : StartEnd} {lines : Array LogLine} :
      e.phase = .leaving result →
      Step e [] { e with
        lifecycle := .shutdown, phase := .idle, starts := e.concluded result, lines }

/-! ## What was logged before does not matter to a rule -/

section

variable {e e' : Engine ω ς} {level : LogLevel} {message : String}
  {fields : List (String × String)} {run : Run ω ς} {evs : List Event}

theorem Rests.of_tell (h : Rests (e.tell level message fields) run e') : Rests e run e' := by
  cases h with
  | pauses h => exact .pauses h
  | breaksOff h => exact .breaksOff h

theorem Dispatches.of_tell {finished left : List (Wired ω ς)}
    (h : Dispatches (e.tell level message fields) run finished left evs e') :
    Dispatches e run finished left evs e' := by
  cases h with
  | ends h => exact .ends h.of_tell
  | executes => exact .executes

theorem Wires.of_tell {config : Config} {x : Exchange ω} {ready : List (Wired ω ς)}
    {left : List Config.Market}
    (h : Wires (e.tell level message fields) config x ready left evs e') :
    Wires e config x ready left evs e' := by
  cases h with
  | enters => exact .enters
  | unlisted h => exact .unlisted h
  | unknown h hs => exact .unknown h hs
  | inits h hs => exact .inits h hs

end

/-! ## Every move follows a rule -/

section

variable (e : Engine ω ς)

theorem completeCycle_rule (run : Run ω ς) : Rests e run (e.completeCycle run) := by
  unfold completeCycle rest
  dsimp only
  split
  · next h => exact .breaksOff (Nat.not_le.mpr h)
  · next h => exact .pauses (Nat.le_of_not_lt h)

theorem dispatch_rule (run : Run ω ς) (finished left : List (Wired ω ς)) :
    ∃ evs, Dispatches e run finished left evs (e.dispatch run finished left) := by
  cases left with
  | nil => exact ⟨_, .ends (e.completeCycle_rule _)⟩
  | cons w left => exact ⟨_, .executes⟩

theorem wireNext_rule (config : Config) (x : Exchange ω) (ready : List (Wired ω ς))
    (left : List Config.Market) :
    ∃ evs, Wires e config x ready left evs (e.wireNext config x ready left) := by
  cases left with
  | nil => exact ⟨_, .enters⟩
  | cons m left =>
    simp only [wireNext]
    split
    · next h => exact ⟨_, .unlisted h⟩
    · next c h =>
      split
      · next hs => exact ⟨_, .unknown h hs⟩
      · next s hs => exact ⟨_, .inits h hs⟩

theorem check_rule {run : Run ω ς} (h : e.phase = .checking run) :
    ∃ evs, Step e evs (e.check run) := by
  unfold check
  split
  · next hs => exact ⟨_, .seesStop h hs⟩
  · next hs =>
    have hs : e.stopRequested = false := by simpa using hs
    split
    · next hw => exact ⟨_, .fetches h hs hw⟩
    · next hw =>
      obtain ⟨evs, hd⟩ := e.dispatch_rule run [] run.markets
      exact ⟨_, .begins h hs hw hd⟩

theorem load_rule (h : e.phase = .loading) : ∃ evs, Step e evs e.load := by
  unfold load
  dsimp only
  split
  · next hl => exact ⟨_, .loadFails h hl⟩
  · next config hl =>
    split
    · next ha => exact ⟨_, .adapterUnknown h hl ha⟩
    · next a ha => exact ⟨_, .loads h hl ha⟩

theorem keepPausing_rule {run : Run ω ς} {deadline : Nat} (h : e.phase = .pausing run deadline) :
    ∃ evs, Step e evs (e.keepPausing run deadline) := by
  unfold keepPausing
  split
  · next ms hn =>
    obtain ⟨hs, hd, rfl⟩ := Pause.of_next_sleep hn
    exact ⟨_, .ticks h hs hd⟩
  · next hn => exact ⟨_, .resumes h (.inr (Pause.of_next_ended hn))⟩
  · next hn => exact ⟨_, .resumes h (.inl (Pause.of_next_interrupted hn))⟩

theorem afterFetch_rule {run : Run ω ς} {p : Program ω (Except Fault Balances)}
    {r : Except Fault Balances} (h : e.phase = .fetching run p) (ht : (e.turn p).rest = .inl r) :
    ∃ evs, Step e evs ((e.afterTurn p).afterFetch run r) := by
  unfold afterFetch
  split
  · next balance hj =>
    obtain ⟨b, rfl, ha, hle⟩ := BalanceCheck.of_judge_passed hj
    obtain ⟨evs, hd⟩ := dispatch_rule _ run [] run.markets
    exact ⟨_, .passes h ht ha hle hd.of_tell⟩
  · next detail hj =>
    cases BalanceCheck.of_judge_unavailable hj
    exact ⟨_, .skips h ht (completeCycle_rule _ run).of_tell⟩
  · next f hj => exact ⟨_, .fetchIsFatal h ht hj⟩

theorem afterExecute_rule {run : Run ω ς} {finished left : List (Wired ω ς)}
    {current : Wired ω ς} {p : Program ω (Except StrategyFault Unit × ς)}
    {r : Except StrategyFault Unit × ς} (h : e.phase = .executing run finished current left p)
    (ht : (e.turn p).rest = .inl r) :
    ∃ evs, Step e evs ((e.afterTurn p).afterExecute run finished current left r) := by
  match r with
  | (.ok (), state) =>
    obtain ⟨evs, hd⟩ := dispatch_rule _ run (finished ++ [{ current with state }]) left
    exact ⟨_, .executes h ht hd⟩
  | (.error fault, state) => exact ⟨_, .executeIsFatal h ht⟩

theorem afterSetUp_rule {config : Config} {a : Adapter ω} {p : Program ω (Except Fault Unit)}
    {r : Except Fault Unit} (h : e.phase = .settingUp config a p)
    (ht : (e.turn p).rest = .inl r) :
    ∃ evs, Step e evs ((e.afterTurn p).afterSetUp config a r) := by
  match r with
  | .ok () =>
    obtain ⟨evs, hw⟩ := wireNext_rule _ config a.exchange [] config.enabledMarkets
    exact ⟨_, .setsUp h ht hw.of_tell⟩
  | .error (.error error) => exact ⟨_, .setUpFails h ht⟩
  | .error (.crash c) => exact ⟨_, .setUpCrashes h ht⟩

theorem afterWiring_rule {config : Config} {x : Exchange ω} {ready : List (Wired ω ς)}
    {current : Wired ω ς} {left : List Config.Market}
    {p : Program ω (Except StrategyFault Unit × ς)} {r : Except StrategyFault Unit × ς}
    (h : e.phase = .wiring config x ready current left p) (ht : (e.turn p).rest = .inl r) :
    ∃ evs, Step e evs ((e.afterTurn p).afterWiring config x ready current left r) := by
  match r with
  | (.ok (), state) =>
    obtain ⟨evs, hw⟩ := wireNext_rule _ config x (ready ++ [{ current with state }]) left
    exact ⟨_, .strategyReady h ht hw.of_tell⟩
  | (.error (.failure message), state) => exact ⟨_, .strategyFails h ht (.inl rfl)⟩
  | (.error (.unexpected message causes), state) =>
    exact ⟨_, .strategyFails h ht (.inr ⟨causes, rfl⟩)⟩
  | (.error (.crash c), state) => exact ⟨_, .strategyCrashes h ht⟩

theorem afterAlert_rule {p : Program ω (Except DeliveryFailure Unit)}
    {r : Except DeliveryFailure Unit} (h : e.phase = .alerting p)
    (ht : (e.turn p).rest = .inl r) : ∃ evs, Step e evs ((e.afterTurn p).afterAlert r) := by
  unfold afterAlert
  dsimp only
  rw [requestStop_eq]
  cases r <;> exact ⟨_, .alerted h ht⟩

theorem leave_rule {result : StartEnd} (h : e.phase = .leaving result) :
    ∃ evs, Step e evs (e.leave result) := by
  cases result <;> exact ⟨_, .leaves h⟩

/-- A component's program is carried on, and at its end the rule for its value applies. -/
theorem carry_rule {suspend : Program ω α → Phase ω ς} {p : Program ω α}
    {finish : Engine ω ς → α → Engine ω ς} (hs : Suspends suspend) (h : e.phase = suspend p)
    (hf : ∀ a, (e.turn p).rest = .inl a → ∃ evs, Step e evs (finish (e.afterTurn p) a)) :
    ∃ evs, Step e evs (e.carry p suspend finish) := by
  rw [carry_eq]
  split
  · next a ht => exact hf a ht
  · next ms q ht =>
    rw [afterTurn_now]
    exact ⟨_, .waits hs h ht⟩

/-- A move of a start that is at work and awake follows one of the rules. -/
theorem work_rule (ha : e.isAsleep = false) (hi : e.phase ≠ .idle) :
    ∃ evs, Step e evs e.work := by
  unfold work
  rw [if_neg (by simp [ha])]
  split
  · next h => exact absurd h hi
  · next h => exact e.load_rule h
  · next h => exact e.carry_rule (.settingUp _ _) h fun r ht => e.afterSetUp_rule h ht
  · next h => exact e.carry_rule (.wiring _ _ _ _ _) h fun r ht => e.afterWiring_rule h ht
  · next h => exact e.check_rule h
  · next h => exact e.carry_rule (.fetching _) h fun r ht => e.afterFetch_rule h ht
  · next h => exact e.carry_rule (.executing _ _ _ _) h fun r ht => e.afterExecute_rule h ht
  · next h => exact e.carry_rule .alerting h fun r ht => e.afterAlert_rule h ht
  · next h => exact e.keepPausing_rule h
  · next h => exact e.leave_rule h

end

/-! ## The events that a rule gives are those shown -/

section

variable {e e' : Engine ω ς} {run : Run ω ς} {evs : List Event}

theorem Rests.news (h : Rests e run e') : e.news e' = [.ended] := by
  cases h <;> exact news_of_end rfl rfl

theorem Dispatches.news {finished left : List (Wired ω ς)}
    (h : Dispatches e run finished left evs e') : e.news e' = evs := by
  cases h with
  | ends h => exact h.news
  | executes => exact news_of_call rfl rfl

theorem Wires.news {config : Config} {x : Exchange ω} {ready : List (Wired ω ς)}
    {left : List Config.Market} (h : Wires e config x ready left evs e') : e.news e' = evs := by
  cases h with
  | enters | unlisted | unknown => exact news_of_same rfl rfl
  | inits => exact news_of_call rfl rfl

theorem Step.shown (h : Step e evs e') : e.learned ++ e.news e' = evs := by
  cases h with
  | waits hs hp ht => cases hs <;> simp [learned, news, hp, ht]
  | loadFails hp | adapterUnknown hp | loads hp | ticks hp | resumes hp | leaves hp =>
    simp [learned, news, hp]
  | setUpFails hp | setUpCrashes hp | strategyFails hp | strategyCrashes hp | alerted hp =>
    simp [learned, news, hp]
  | seesStop hp hs | fetches hp hs => simp [learned, news, hp, hs]
  | fetchIsFatal hp ht | executeIsFatal hp ht => simp [learned, news, hp, ht]
  -- A move that goes straight on shows what the next phase does as well.
  | setsUp hp ht hw | strategyReady hp ht hw =>
    rw [← hw.news, news_congr (afterTurn_actions e _) (afterTurn_cycles e _)]
    simp [learned, hp]
  | begins hp hs _ hd =>
    rw [hd.news]
    simp [learned, hp, hs]
  | passes hp ht _ _ hd | executes hp ht hd =>
    rw [← hd.news, news_congr (afterTurn_actions e _) (afterTurn_cycles e _)]
    simp [learned, hp, ht]
  | skips hp ht hr =>
    rw [← news_congr (afterTurn_actions e _) (afterTurn_cycles e _), hr.news]
    simp [learned, hp, ht]

/-- **Every move follows a rule**, with the events that it shows. -/
theorem work_step (ha : e.isAsleep = false) (hi : e.phase ≠ .idle) :
    Step e e.shown e.work := by
  obtain ⟨evs, h⟩ := e.work_rule ha hi
  have hs : e.shown = evs := by
    rw [Engine.shown, ha, ← h.shown]
    rfl
  exact hs ▸ h

/-- A start that sleeps makes no move, and neither does one that is not at work. -/
theorem work_eq_self (h : e.isAsleep = true ∨ e.phase = .idle) : e.work = e := by
  unfold work
  split
  · rfl
  · next ha =>
    have hp : e.phase = .idle := h.resolve_left ha
    rw [hp]

theorem shown_eq_nil (h : e.isAsleep = true ∨ e.phase = .idle) : e.shown = [] := by
  rw [Engine.shown, work_eq_self h, news_of_same rfl rfl]
  split
  · rfl
  · next ha => simp [learned, h.resolve_left ha]

/-! ## What a rule leaves as it is -/

/-- Only what a rule says about its phase, its calls and its cycles has changed. -/
structure Keeps (e e' : Engine ω ς) : Prop where
  setup : e'.setup = e.setup
  lifecycle : e'.lifecycle = e.lifecycle
  stopRequested : e'.stopRequested = e.stopRequested
  now : e'.now = e.now
  wake : e'.wake = e.wake

theorem Rests.keeps (h : Rests e run e') : Keeps e e' := by
  cases h <;> exact ⟨rfl, rfl, rfl, rfl, rfl⟩

theorem Dispatches.keeps {finished left : List (Wired ω ς)}
    (h : Dispatches e run finished left evs e') : Keeps e e' := by
  cases h with
  | ends h => exact h.keeps
  | executes => exact ⟨rfl, rfl, rfl, rfl, rfl⟩

theorem Wires.keeps {config : Config} {x : Exchange ω} {ready : List (Wired ω ς)}
    {left : List Config.Market} (h : Wires e config x ready left evs e') : Keeps e e' := by
  cases h <;> exact ⟨rfl, rfl, rfl, rfl, rfl⟩

/-- What every rule leaves as it is: the parts and the time, a request to stop, and the stage unless
the start at work leaves. -/
structure Stays (e e' : Engine ω ς) : Prop where
  setup : e'.setup = e.setup
  now : e'.now = e.now
  stopRequested : e.stopRequested = true → e'.stopRequested = true
  lifecycle : e'.lifecycle = e.lifecycle ∨ e'.lifecycle = .shutdown

theorem Keeps.stays (h : Keeps e e') : Stays e e' :=
  ⟨h.setup, h.now, fun hs => h.stopRequested.trans hs, .inl h.lifecycle⟩

theorem Keeps.stays_turn {p : Program ω α} (h : Keeps (e.afterTurn p) e') : Stays e e' := by
  refine ⟨?_, ?_, fun hs => ?_, .inl ?_⟩
  · rw [h.setup, afterTurn_setup]
  · rw [h.now, afterTurn_now]
  · rw [h.stopRequested, afterTurn_stopRequested, hs, Bool.true_or]
  · rw [h.lifecycle, afterTurn_lifecycle]

theorem Step.stays (h : Step e evs e') : Stays e e' := by
  cases h with
  | setsUp _ _ h | strategyReady _ _ h => exact h.keeps.stays_turn
  | begins _ _ _ h => exact h.keeps.stays
  | passes _ _ _ _ h | executes _ _ h => exact h.keeps.stays_turn
  | skips _ _ h => exact h.keeps.stays_turn
  | _ => constructor <;> simp +contextual

/-! ## The moves of single phases -/

theorem Step.of_alerting {p : Program ω (Except DeliveryFailure Unit)} (st : Step e evs e')
    (hp : e.phase = .alerting p) :
    (∃ ms q, (e.turn p).rest = .inr (ms, q) ∧ e'.phase = .alerting q) ∨
      ((∃ r, (e.turn p).rest = .inl r) ∧ e'.phase = .leaving .ok ∧ e'.stopRequested = true) := by
  cases st with
  | waits hsus hp' ht =>
    rw [hp] at hp'
    cases hsus <;> cases hp'
    exact .inl ⟨_, _, ht, rfl⟩
  | alerted hp' ht =>
    rw [hp] at hp'
    cases hp'
    exact .inr ⟨⟨_, ht⟩, rfl, rfl⟩
  | _ => simp_all

theorem Step.of_checking (st : Step e evs e') (hp : e.phase = .checking run) :
    (e.stopRequested = true ∧ evs = [.stopSeen] ∧
        ∃ lines, e' = { e with phase := .leaving .ok, lines }) ∨
      (e.stopRequested = false ∧ e'.stopRequested = false ∧ ∃ evs', evs = .began :: evs') := by
  cases st with
  | waits hsus hp' =>
    rw [hp] at hp'
    cases hsus <;> cases hp'
  | seesStop _ hs => exact .inl ⟨hs, rfl, _, rfl⟩
  | fetches _ hs => exact .inr ⟨hs, hs, _, rfl⟩
  | begins _ hs _ hd => exact .inr ⟨hs, hd.keeps.stopRequested.trans hs, _, rfl⟩
  | _ => simp_all

theorem Step.of_pausing {deadline : Nat} (st : Step e evs e')
    (hp : e.phase = .pausing run deadline) : evs = [] ∧
      ((e.stopRequested = false ∧ e.now < deadline ∧
          e' = { e with wake := e.now + min Pause.tick (deadline - e.now) }) ∨
        ((e.stopRequested = true ∨ deadline ≤ e.now) ∧
          ∃ lines, e' = { e with phase := .checking run, lines })) := by
  -- No other move starts from a pause.
  cases st with
  | waits hsus hp' =>
    rw [hp] at hp'
    cases hsus <;> cases hp'
  | ticks hp' hs hd =>
    rw [hp] at hp'
    cases hp'
    exact ⟨rfl, .inl ⟨hs, hd, rfl⟩⟩
  | resumes hp' hd =>
    rw [hp] at hp'
    cases hp'
    exact ⟨rfl, .inr ⟨hd, _, rfl⟩⟩
  | _ => simp_all

theorem Step.of_leaving {r : StartEnd} (st : Step e evs e') (hp : e.phase = .leaving r) :
    evs = [] ∧ ∃ lines, e' =
      { e with lifecycle := .shutdown, phase := .idle, starts := e.concluded r, lines } := by
  cases st with
  | waits hsus hp' =>
    rw [hp] at hp'
    cases hsus <;> cases hp'
  | leaves hp' =>
    rw [hp] at hp'
    cases hp'
    exact ⟨rfl, _, rfl⟩
  | _ => simp_all

/-! ## The record of calls -/

theorem Rests.actions (h : Rests e run e') : e'.actions = e.actions := by
  cases h <;> rfl

theorem Dispatches.actions {finished left : List (Wired ω ς)}
    (h : Dispatches e run finished left evs e') :
    e'.actions.toList = e.actions.toList ++ evs.filterMap Event.call? := by
  cases h with
  | ends h => simp [h.actions, Event.call?, List.filterMap_cons]
  | executes => simp [Event.call?]

theorem Wires.actions {config : Config} {x : Exchange ω} {ready : List (Wired ω ς)}
    {left : List Config.Market} (h : Wires e config x ready left evs e') :
    e'.actions.toList = e.actions.toList ++ evs.filterMap Event.call? := by
  cases h <;> simp [Event.call?]

theorem Step.actions (h : Step e evs e') :
    e'.actions.toList = e.actions.toList ++ evs.filterMap Event.call? := by
  cases h with
  | setsUp _ _ h | strategyReady _ _ h => simp [h.actions]
  | begins _ _ _ h | passes _ _ _ _ h | executes _ _ h =>
    simp [h.actions, Event.call?, List.filterMap_cons]
  | skips _ _ h => simp [h.actions, Event.call?, List.filterMap_cons]
  | _ => simp [Event.call?, List.filterMap_cons]

end

end Engine

end TradingBot
