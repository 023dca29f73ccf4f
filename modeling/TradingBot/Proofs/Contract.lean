import TradingBot.Proofs.Guarantee
import TradingBot.Proofs.InertSettings

/-!
# Components that keep a contract

**Visits** (`Visit`). An execution that has come to its end: its market, what an observer has heard
in the course of it, and its result. `Engine.visits` lists the visits of a run.

**The contract** (`Contract`). Conditions on the world before and after the adapter is set up, on a
strategy that is wired and on one that was executed, what every fetch of balances gives, and what
each visit satisfies. The components keep it (`Contract.Kept`) if each of their programs,
begun as a condition says, ends as one says, and does not request a stop.

**The invariant** (`Contract.Holds`). The world, the wired strategies and the program that the
engine waits for are as the contract says, and so are all visits. Every move keeps it
(`Contract.Holds.follows`), as long as nobody requests a stop and the changes of the world by itself
leave the conditions as they are (`Contract.Spared`).

**Theorem (`Contract.holds_after`).** What the components keep move by move, every run keeps.
-/

namespace TradingBot

/-! ## Visits -/

/-- An execution that has ended. -/
structure Visit (τ : Type) where
  marketId : String
  /-- What was heard in the course of it. -/
  heard : List τ
  result : Except StrategyFault Unit

/-- The executions that have ended, and what was heard since the last one began. -/
structure Visits (τ : Type) where
  ended : List (Visit τ) := []
  pending : List τ := []

namespace Visits

variable {τ : Type}

def note (v : Visits τ) : Event → Visits τ
  | .call (.execute _) => { v with pending := [] }
  | .executed id r => { v with ended := v.ended ++ [⟨id, v.pending, r⟩] }
  | _ => v

def noteMove (v : Visits τ) (heard : List τ) (evs : List Event) : Visits τ :=
  evs.foldl note { v with pending := v.pending ++ heard }

end Visits

/-- The market and the result of an event that ends an execution. -/
def Event.execution? : Event → Option (String × Except StrategyFault Unit)
  | .executed id r => some (id, r)
  | _ => none

namespace Engine

variable {ω ς τ : Type}

/-- The strategies that the engine's loop works with, in the order of their markets. -/
def Phase.wired : Phase ω ς → List (Wired ω ς)
  | .checking run | .fetching run _ | .pausing run _ => run.markets
  | .executing _ finished current left _ => finished ++ current :: left
  | .idle | .loading | .settingUp _ _ _ | .wiring _ _ _ _ _ _ | .alerting _ | .leaving _ => []

def hears (hear : LogLine → ω → List τ) (e : Engine ω ς) : List τ :=
  match e.phase with
  | .executing _ _ _ _ p => p.heard hear e.time e.world
  | _ => []

/-- What is heard of executions in a move. -/
def hearing (hear : LogLine → ω → List τ) (e : Engine ω ς) : Move ω → List τ
  | .work => if e.isAsleep then [] else e.hears hear
  | _ => []

def visits (hear : LogLine → ω → List τ) (e : Engine ω ς) (σ : Schedule ω) : Nat → Visits τ
  | 0 => {}
  | n + 1 =>
    (e.visits hear σ n).noteMove ((e.after σ n).hearing hear (σ n)) ((e.after σ n).showing (σ n))

end Engine

theorem Visits.ended_foldl {τ : Type} (evs : List Event) (v : Visits τ) :
    (evs.foldl note v).ended.map (fun x => (x.marketId, x.result)) =
      v.ended.map (fun x => (x.marketId, x.result)) ++ evs.filterMap Event.execution? := by
  induction evs generalizing v with
  | nil => simp
  | cons ev evs ih =>
    rw [List.foldl_cons, ih]
    cases ev with
    | call a => cases a <;> rfl
    | executed id r => simp [note, Event.execution?]
    | began | ended | stopSeen | balances => rfl

theorem Engine.visits_ended {ω ς τ : Type} (hear : LogLine → ω → List τ) (e : Engine ω ς)
    (σ : Schedule ω) (n : Nat) :
    ((e.visits hear σ n).ended.map fun x => (x.marketId, x.result)) =
      (e.history σ n).filterMap Event.execution? := by
  induction n with
  | zero => rfl
  | succ n ih =>
    rw [visits, Visits.noteMove, Visits.ended_foldl, history, List.filterMap_append]
    exact congrArg (· ++ _) ih

theorem Engine.executed_mem_iff {ω ς τ : Type} (hear : LogLine → ω → List τ) {e : Engine ω ς}
    {σ : Schedule ω} {n : Nat} {id : String} {r : Except StrategyFault Unit} :
    .executed id r ∈ e.history σ n ↔
      ∃ v ∈ (e.visits hear σ n).ended, v.marketId = id ∧ v.result = r := by
  have hmem : .executed id r ∈ e.history σ n ↔
      (id, r) ∈ (e.history σ n).filterMap Event.execution? := by
    rw [List.mem_filterMap]
    refine ⟨fun h => ⟨_, h, rfl⟩, ?_⟩
    rintro ⟨ev, hev, he⟩
    cases ev with
    | executed => cases he; exact hev
    | began | ended | stopSeen | call | balances => cases he
  rw [hmem, ← e.visits_ended hear σ n, List.mem_map]
  simp only [Prod.mk.injEq]

/-! ## The contract -/

/-- What the components of a run ensure. -/
structure Contract (ω ς τ : Type) where
  hear : LogLine → ω → List τ
  /-- The world until the adapter is set up. -/
  Raw : ω → Prop
  /-- The world from then on. -/
  SetUp : ω → Prop
  /-- A strategy that is wired. -/
  Ready : Wired ω ς → Prop
  /-- A strategy that was executed well. -/
  Done : Wired ω ς → Prop
  /-- What every fetch of balances gives. -/
  balances : Balances
  Visited : Visit τ → Prop

namespace Contract

open Engine

variable {ω ς τ α : Type} {K : Contract ω ς τ}

def SetsUp (K : Contract ω ς τ) (_ : List τ) (r : Except Fault Unit) (w : ω) : Prop :=
  r = .ok () → K.SetUp w

def Inits (K : Contract ω ς τ) (y : Wired ω ς) (_ : List τ) (r : Except StrategyFault Unit × ς)
    (w : ω) : Prop :=
  K.SetUp w ∧ (r.1 = .ok () → K.Ready { y with state := r.2 })

def Fetches (K : Contract ω ς τ) (_ : List τ) (r : Except Fault Balances) (w : ω) : Prop :=
  K.SetUp w ∧ r = .ok K.balances

def Executes (K : Contract ω ς τ) (y : Wired ω ς) (t : List τ)
    (r : Except StrategyFault Unit × ς) (w : ω) : Prop :=
  K.SetUp w ∧ K.Visited ⟨y.market.id, t, r.1⟩ ∧
    (r.1 = .ok () → K.Ready { y with state := r.2 } ∧ K.Done { y with state := r.2 })

/-- From every world in which it may go on, the program ensures what it is to come to. -/
def Owes (K : Contract ω ς τ) (I : ω → Prop) (p : Program ω α) (t : List τ)
    (Q : List τ → α → ω → Prop) : Prop :=
  ∀ w, I w → p.Ensures K.hear I Q t w

/-- The components that a configuration names keep the contract. -/
structure Kept (K : Contract ω ς τ) (s : Setup ω ς) (c : Config) (a : Adapter ω) : Prop where
  loads : s.source.load = .ok c
  registered : s.registry.adapter? c.exchange.adapter = some a
  fresh : ∀ w, K.Raw (a.fresh w)
  setUp : K.Owes K.Raw (a.init c.exchange).run [] K.SetsUp
  init : ∀ m ∈ c.enabledMarkets, ∀ settings strategy, c.strategy? m.strategyId = some settings →
    s.registry.strategy? settings.className = some strategy →
      K.Owes K.SetUp (strategy.init a.exchange (marketOf m) settings strategy.fresh) []
        (K.Inits ⟨marketOf m, settings.id, strategy, strategy.fresh⟩)
  fetch : K.Owes K.SetUp a.exchange.balances.run [] K.Fetches
  execute : ∀ y, K.Ready y →
    K.Owes K.SetUp (y.strategy.execute a.exchange y.state) [] (K.Executes y)

/-- Nobody requests a stop, and the world changes by itself only in ways that the contract does not
notice. -/
structure Spared (K : Contract ω ς τ) (e : Engine ω ς) (σ : Schedule ω) : Prop where
  stop : ∀ n, σ n ≠ .requestStop
  raw : ∀ n w, σ n = .change w → K.Raw (e.after σ n).world → K.Raw w
  setUp : ∀ n w, σ n = .change w → K.SetUp (e.after σ n).world → K.SetUp w

/-! ## The invariant -/

/-- The run works with the adapter and is wired. All its strategies were executed if a cycle was
completed. -/
structure Runs (K : Contract ω ς τ) (a : Adapter ω) (w : ω) (cycles : Nat) (run : Run ω ς) :
    Prop where
  exchange : run.exchange = a.exchange
  world : K.SetUp w
  markets : ∀ y ∈ run.markets, K.Ready y ∧ (0 < cycles → K.Done y)

def OnPhase (K : Contract ω ς τ) (a : Adapter ω) (w : ω) (cycles : Nat) (pending : List τ) :
    Phase ω ς → Prop
  | .settingUp _ b p => b = a ∧ K.Raw w ∧ ∃ t, K.Owes K.Raw p t K.SetsUp
  | .wiring _ x ready current _ p => x = a.exchange ∧ K.SetUp w ∧ (∀ y ∈ ready, K.Ready y) ∧
    ∃ t, K.Owes K.SetUp p t (K.Inits current)
  | .checking run | .pausing run _ => K.Runs a w cycles run
  | .fetching run p => K.Runs a w cycles run ∧ ∃ t, K.Owes K.SetUp p t K.Fetches
  | .executing run finished current left p => run.exchange = a.exchange ∧ K.SetUp w ∧
    (∀ y ∈ finished, K.Ready y ∧ K.Done y) ∧
    (∀ y ∈ left, K.Ready y ∧ (0 < cycles → K.Done y)) ∧
    (0 < cycles → K.Done current) ∧ K.Owes K.SetUp p pending (K.Executes current)
  | .idle | .loading | .alerting _ | .leaving _ => True

/-- There is no start, or it is on its way out. -/
def Quits : Phase ω ς → Prop
  | .idle | .alerting _ | .leaving _ => True
  | .loading | .settingUp _ _ _ | .wiring _ _ _ _ _ _ | .checking _ | .fetching _ _
  | .executing _ _ _ _ _ | .pausing _ _ => False

structure Holds (K : Contract ω ς τ) (a : Adapter ω) (e : Engine ω ς) (v : Visits τ) : Prop where
  phase : K.OnPhase a e.world e.cycles v.pending e.phase
  /-- Nobody but a start on its way out requests a stop. -/
  stop : e.stopRequested = true → Quits e.phase ∧ e.lifecycle ≠ .notStarted
  visited : ∀ x ∈ v.ended, K.Visited x

/-- The event can be shown under the contract. -/
def Allows (K : Contract ω ς τ) : Event → Prop
  | .balances r => r = .ok K.balances
  | .stopSeen => False
  | .began | .ended | .call _ | .executed _ _ => True

/-! ## One move -/

variable {s : Setup ω ς} {c : Config} {a : Adapter ω} {e d e' : Engine ω ς} {v : Visits τ}
  {evs : List Event} {run : Run ω ς} {t : List τ}

/-- In the middle of a move: the turn is over, and no stop was requested. -/
structure Midway (K : Contract ω ς τ) (d : Engine ω ς) (v : Visits τ) : Prop where
  world : K.SetUp d.world
  stop : d.stopRequested = false
  visited : ∀ x ∈ v.ended, K.Visited x

theorem Holds.of_running (hs : e.stopRequested = false)
    (hp : K.OnPhase a e.world e.cycles v.pending e.phase) (hv : ∀ x ∈ v.ended, K.Visited x) :
    K.Holds a e v :=
  ⟨hp, fun h => by simp [hs] at h, hv⟩

theorem Midway.rests (hd : K.Midway d v) (hr : Rests d run e') (hx : run.exchange = a.exchange)
    (hm : ∀ y ∈ run.markets, K.Ready y ∧ K.Done y) : K.Holds a e' v := by
  cases hr with
  | pauses =>
    refine .of_running hd.stop ⟨hx, hd.world, fun y hy => ?_⟩ hd.visited
    exact ⟨(hm y hy).1, fun _ => (hm y hy).2⟩
  | breaksOff => exact .of_running hd.stop trivial hd.visited

theorem Midway.dispatches {finished left : List (Wired ω ς)} (hd : K.Midway d v)
    (hk : K.Kept s c a) (hx : run.exchange = a.exchange)
    (hf : ∀ y ∈ finished, K.Ready y ∧ K.Done y)
    (hl : ∀ y ∈ left, K.Ready y ∧ (0 < d.cycles → K.Done y))
    (hdis : Dispatches d run finished left evs e') :
    K.Holds a e' (evs.foldl Visits.note v) ∧ ∀ ev ∈ evs, K.Allows ev := by
  cases hdis with
  | ends hr =>
    exact ⟨hd.rests hr hx hf, List.forall_mem_singleton.mpr trivial⟩
  | @executes y =>
    obtain ⟨⟨hy, hdone⟩, hl⟩ := List.forall_mem_cons.mp hl
    have howes : K.Owes K.SetUp (y.strategy.execute run.exchange y.state) [] (K.Executes y) := by
      rw [hx]
      exact hk.execute y hy
    exact ⟨.of_running hd.stop ⟨hx, hd.world, hf, hl, hdone, howes⟩ hd.visited,
      List.forall_mem_singleton.mpr trivial⟩

theorem Midway.wires {ready : List (Wired ω ς)} {left : List Config.Market} (hd : K.Midway d v)
    (hk : K.Kept s c a) (hset : d.setup = s) (h0 : d.cycles = 0) (hr : ∀ y ∈ ready, K.Ready y)
    (hl : ∀ m ∈ left, m ∈ c.enabledMarkets) (hw : Wires d c a.exchange ready left evs e') :
    K.Holds a e' (evs.foldl Visits.note v) ∧ ∀ ev ∈ evs, K.Allows ev := by
  cases hw with
  | enters =>
    have hm : ∀ y ∈ ready, K.Ready y ∧ (0 < d.cycles → K.Done y) :=
      fun y hy => ⟨hr y hy, fun hpos => by simp [h0] at hpos⟩
    exact ⟨.of_running hd.stop ⟨rfl, hd.world, hm⟩ hd.visited, List.forall_mem_nil _⟩
  | unlisted | unknown =>
    exact ⟨.of_running hd.stop trivial hd.visited, List.forall_mem_nil _⟩
  | inits hlist hreg =>
    have howes := hk.init _ (List.forall_mem_cons.mp hl).1 _ _ hlist (hset ▸ hreg)
    exact ⟨.of_running hd.stop ⟨rfl, hd.world, hr, [], howes⟩ hd.visited,
      List.forall_mem_singleton.mpr trivial⟩

/-- A turn of a program that owes something: no stop is requested, and it ends as it should, or what
is left owes it still. -/
theorem Owes.turn {I : ω → Prop} {p : Program ω α} {Q : List τ → α → ω → Prop}
    (hp : K.Owes I p t Q) (hw : I e.world) (hs : e.stopRequested = false) :
    (e.afterTurn p).stopRequested = false ∧
      (∀ r, (e.turn p).rest = .inl r →
        Q (t ++ p.heard K.hear e.time e.world) r (e.afterTurn p).world) ∧
      ∀ ms q, (e.turn p).rest = .inr (ms, q) → I (e.afterTurn p).world ∧
        K.Owes I q (t ++ p.heard K.hear e.time e.world) Q := by
  have hworld : (e.afterTurn p).world = (e.turn p).world := by rw [afterTurn_eq]
  obtain ⟨hstop, hend, hwait⟩ := (hp _ hw).resume e.time
  rw [afterTurn_stopRequested, hworld, hs]
  exact ⟨hstop, hend, hwait⟩

/-- The visits so far, with what is heard in the next turn. -/
def heardOf (K : Contract ω ς τ) (e : Engine ω ς) (v : Visits τ) : Visits τ :=
  { v with pending := v.pending ++ e.hears K.hear }

theorem Holds.running (h : K.Holds a e v) (hq : ¬ Quits e.phase) : e.stopRequested = false := by
  by_contra hs
  exact hq (h.stop (by simpa using hs)).1

theorem Holds.waits {suspend : Program ω α → Phase ω ς} {p q : Program ω α} {ms : Nat}
    (h : K.Holds a e v) (hsus : Suspends suspend) (hp : e.phase = suspend p)
    (hl : e.lifecycle ≠ .notStarted) (ht : (e.turn p).rest = .inr (ms, q)) :
    K.Holds a { e.afterTurn p with phase := suspend q, wake := e.now + ms } (K.heardOf e v) := by
  have hphase := h.phase
  rw [hp] at hphase
  -- In each phase the promise for the program goes over to what is left of it (`Owes.turn`). Only
  -- in an execution something may have been heard in the turn.
  cases hsus with
  | settingUp config b =>
    obtain ⟨hb, hw, t, howes⟩ := hphase
    obtain ⟨hstop, -, hwait⟩ := howes.turn hw (h.running (by rw [hp]; exact id))
    obtain ⟨hw', howes'⟩ := hwait ms q ht
    exact .of_running hstop ⟨hb, hw', _, howes'⟩ h.visited
  | wiring config x ready current left =>
    obtain ⟨hx, hw, hr, t, howes⟩ := hphase
    obtain ⟨hstop, -, hwait⟩ := howes.turn hw (h.running (by rw [hp]; exact id))
    obtain ⟨hw', howes'⟩ := hwait ms q ht
    exact .of_running hstop ⟨hx, hw', hr, _, howes'⟩ h.visited
  | fetching run =>
    obtain ⟨⟨hx, hw, hm⟩, t, howes⟩ := hphase
    obtain ⟨hstop, -, hwait⟩ := howes.turn hw (h.running (by rw [hp]; exact id))
    obtain ⟨hw', howes'⟩ := hwait ms q ht
    exact .of_running hstop ⟨⟨hx, hw', by simpa using hm⟩, _, howes'⟩ h.visited
  | executing run finished current left =>
    obtain ⟨hx, hw, hf, hm, hdone, howes⟩ := hphase
    obtain ⟨hstop, -, hwait⟩ := howes.turn hw (h.running (by rw [hp]; exact id))
    obtain ⟨hw', howes'⟩ := hwait ms q ht
    have hhears : e.hears K.hear = p.heard K.hear e.time e.world := by rw [hears, hp]
    refine .of_running hstop ⟨hx, hw', hf, by simpa using hm, by simpa using hdone, ?_⟩ h.visited
    rw [heardOf, hhears]
    exact howes'
  | alerting => exact ⟨trivial, fun _ => ⟨trivial, by simpa using hl⟩, h.visited⟩

theorem Holds.fetched {p : Program ω (Except Fault Balances)} {r : Except Fault Balances}
    (h : K.Holds a e v) (hp : e.phase = .fetching run p) (ht : (e.turn p).rest = .inl r) :
    r = .ok K.balances ∧ K.Midway (e.afterTurn p) (K.heardOf e v) ∧
      K.Runs a (e.afterTurn p).world (e.afterTurn p).cycles run := by
  have hphase := h.phase
  have hrun := h.running
  rw [hp] at hphase hrun
  obtain ⟨⟨hx, hw, hm⟩, t, howes⟩ := hphase
  obtain ⟨hstop, hend, -⟩ := howes.turn hw (hrun id)
  obtain ⟨hw', hr⟩ := hend _ ht
  exact ⟨hr, ⟨hw', hstop, h.visited⟩, ⟨hx, hw', by simpa using hm⟩⟩

theorem Holds.executed {finished left : List (Wired ω ς)} {current : Wired ω ς}
    {p : Program ω (Except StrategyFault Unit × ς)} {r : Except StrategyFault Unit} {state : ς}
    (h : K.Holds a e v) (hp : e.phase = .executing run finished current left p)
    (ht : (e.turn p).rest = .inl (r, state)) :
    K.Midway (e.afterTurn p) ((K.heardOf e v).note (.executed current.market.id r)) ∧
      (r = .ok () → K.Ready { current with state } ∧ K.Done { current with state }) := by
  have hphase := h.phase
  have hrun := h.running
  have hhears : e.hears K.hear = p.heard K.hear e.time e.world := by rw [hears, hp]
  rw [hp] at hphase hrun
  obtain ⟨-, hw, -, -, -, howes⟩ := hphase
  obtain ⟨hstop, hend, -⟩ := howes.turn hw (hrun id)
  obtain ⟨hw', hvisit, hdone⟩ := hend _ ht
  refine ⟨⟨hw', hstop, ?_⟩, hdone⟩
  rw [Visits.note, heardOf, hhears, List.forall_mem_append, List.forall_mem_singleton]
  exact ⟨h.visited, hvisit⟩

/-- **One move** of the start at work. -/
theorem Holds.step {h : List Event} (hh : K.Holds a e v) (hk : K.Kept s c a) (hset : e.setup = s)
    (hwf : e.phase.WorksFrom c) (ht : Told c e h) (hl : e.lifecycle ≠ .notStarted)
    (st : Step e evs e') :
    K.Holds a e' (evs.foldl Visits.note (K.heardOf e v)) ∧ ∀ ev ∈ evs, K.Allows ev := by
  obtain ⟨-, -, last, -, hstory⟩ := ht
  have hphase := hh.phase
  have hrun := hh.running
  have hvis : ∀ x ∈ (K.heardOf e v).ended, K.Visited x := hh.visited
  have hnone : ∀ ev ∈ ([] : List Event), K.Allows ev := List.forall_mem_nil _
  cases st with
  | waits hsus hp hturn => exact ⟨hh.waits hsus hp hl hturn, hnone⟩
  -- Putting a run together
  | loadFails hp | adapterUnknown hp =>
    rw [hp] at hrun
    exact ⟨.of_running (hrun id) trivial hvis, hnone⟩
  | loads hp hload hreg =>
    rw [hp] at hrun
    rw [hset] at hload hreg
    cases hk.loads.symm.trans hload
    cases hk.registered.symm.trans hreg
    refine ⟨.of_running (hrun id) ⟨rfl, hk.fresh _, [], hk.setUp⟩ hvis, ?_⟩
    exact List.forall_mem_singleton.mpr trivial
  | setUpFails hp | setUpCrashes hp =>
    rw [hp] at hphase hrun
    obtain ⟨-, hw, t, howes⟩ := hphase
    obtain ⟨hstop, -⟩ := howes.turn hw (hrun id)
    exact ⟨.of_running hstop trivial hvis, hnone⟩
  | setsUp hp hturn hwires =>
    rw [hp] at hphase hrun hwf hstory
    obtain ⟨rfl, hw, t, howes⟩ := hphase
    obtain ⟨hstop, hend, -⟩ := howes.turn hw (hrun id)
    obtain rfl : _ = c := hwf
    obtain ⟨-, h0, -⟩ := hstory
    have hd : K.Midway (e.afterTurn _) (K.heardOf e v) := ⟨hend _ hturn rfl, hstop, hvis⟩
    exact hd.wires hk (by simpa using hset) (by simpa using h0) (List.forall_mem_nil _)
      (fun m hm => hm) hwires
  | strategyFails hp | strategyCrashes hp =>
    rw [hp] at hphase hrun
    obtain ⟨-, hw, -, t, howes⟩ := hphase
    obtain ⟨hstop, -⟩ := howes.turn hw (hrun id)
    exact ⟨.of_running hstop trivial hvis, hnone⟩
  | strategyReady hp hturn hwires =>
    rw [hp] at hphase hrun hwf hstory
    obtain ⟨rfl, hw, hr, t, howes⟩ := hphase
    obtain ⟨hstop, hend, -⟩ := howes.turn hw (hrun id)
    obtain ⟨hw', hready⟩ := hend _ hturn
    obtain ⟨rfl, hleft⟩ := hwf
    obtain ⟨-, h0, -⟩ := hstory
    have hd : K.Midway (e.afterTurn _) (K.heardOf e v) := ⟨hw', hstop, hvis⟩
    refine hd.wires hk (by simpa using hset) (by simpa using h0) ?_ hleft hwires
    rw [List.forall_mem_append, List.forall_mem_singleton]
    exact ⟨hr, hready rfl⟩
  -- The loop
  | seesStop hp hs =>
    rw [hp] at hrun
    cases (hrun id).symm.trans hs
  | fetches hp =>
    rw [hp] at hphase hrun
    have howes := hk.fetch
    rw [← hphase.exchange] at howes
    refine ⟨.of_running (hrun id) ⟨hphase, [], howes⟩ hvis, ?_⟩
    exact List.forall_mem_cons.mpr ⟨trivial, List.forall_mem_singleton.mpr trivial⟩
  | begins hp hs _ hdis =>
    rw [hp] at hphase
    have hd : K.Midway e (K.heardOf e v) := ⟨hphase.world, hs, hvis⟩
    obtain ⟨hholds, hall⟩ :=
      hd.dispatches hk hphase.exchange (List.forall_mem_nil _) hphase.markets hdis
    exact ⟨hholds, List.forall_mem_cons.mpr ⟨trivial, hall⟩⟩
  | passes hp hturn _ _ hdis =>
    obtain ⟨hr, hd, hruns⟩ := hh.fetched hp hturn
    obtain ⟨hholds, hall⟩ :=
      hd.dispatches hk hruns.exchange (List.forall_mem_nil _) hruns.markets hdis
    exact ⟨hholds, List.forall_mem_cons.mpr ⟨hr, hall⟩⟩
  | skips hp hturn => cases (hh.fetched hp hturn).1
  | fetchIsFatal hp hturn =>
    obtain ⟨hr, hd, -⟩ := hh.fetched hp hturn
    refine ⟨.of_running hd.stop trivial hvis, ?_⟩
    exact List.forall_mem_cons.mpr ⟨hr, List.forall_mem_singleton.mpr trivial⟩
  | executes hp hturn hdis =>
    obtain ⟨hd, hok⟩ := hh.executed hp hturn
    rw [hp] at hphase
    obtain ⟨hx, -, hf, hm, -⟩ := hphase
    have hf' := List.forall_mem_append.mpr ⟨hf, List.forall_mem_singleton.mpr (hok rfl)⟩
    obtain ⟨hholds, hall⟩ := hd.dispatches hk hx hf' (by simpa using hm) hdis
    exact ⟨hholds, List.forall_mem_cons.mpr ⟨trivial, hall⟩⟩
  | executeIsFatal hp hturn =>
    obtain ⟨hd, -⟩ := hh.executed hp hturn
    refine ⟨.of_running hd.stop trivial hd.visited, ?_⟩
    exact List.forall_mem_cons.mpr ⟨trivial, List.forall_mem_singleton.mpr trivial⟩
  | alerted hp => exact ⟨⟨trivial, fun _ => ⟨trivial, by simpa using hl⟩, hvis⟩, hnone⟩
  | ticks hp =>
    rw [hp] at hphase hrun
    refine ⟨.of_running (hrun id) ?_ hvis, hnone⟩
    rw [hp]
    exact hphase
  | resumes hp =>
    rw [hp] at hphase hrun
    exact ⟨.of_running (hrun id) hphase hvis, hnone⟩
  | leaves hp => exact ⟨⟨trivial, fun _ => ⟨trivial, nofun⟩, hvis⟩, hnone⟩

theorem Holds.done (h : K.Holds a e v) (h0 : 0 < e.cycles) : ∀ y ∈ e.phase.wired, K.Done y := by
  have hphase := h.phase
  cases hp : e.phase with
  | checking run | pausing run =>
    rw [hp] at hphase
    exact fun y hy => (hphase.markets y hy).2 h0
  | fetching run =>
    rw [hp] at hphase
    exact fun y hy => (hphase.1.markets y hy).2 h0
  | executing run finished current left =>
    rw [hp] at hphase
    obtain ⟨-, -, hf, hl, hdone, -⟩ := hphase
    rw [Phase.wired, List.forall_mem_append, List.forall_mem_cons]
    exact ⟨fun y hy => (hf y hy).2, hdone h0, fun y hy => (hl y hy).2 h0⟩
  | idle | loading | settingUp | wiring | alerting | leaving => exact List.forall_mem_nil _

/-! ## Whole runs -/

theorem OnPhase.change {w w' : ω} {cycles : Nat} {pending : List τ} {p : Phase ω ς}
    (h : K.OnPhase a w cycles pending p) (hraw : K.Raw w → K.Raw w')
    (hset : K.SetUp w → K.SetUp w') : K.OnPhase a w' cycles pending p := by
  cases p with
  | settingUp => exact ⟨h.1, hraw h.2.1, h.2.2⟩
  | wiring => exact ⟨h.1, hset h.2.1, h.2.2⟩
  | checking | pausing => exact ⟨h.exchange, hset h.world, h.markets⟩
  | fetching => exact ⟨⟨h.1.exchange, hset h.1.world, h.1.markets⟩, h.2⟩
  | executing => exact ⟨h.1, hset h.2.1, h.2.2⟩
  | idle | loading | alerting | leaving => trivial

/-- No execution is heard while nobody is at work or the start sleeps. -/
theorem hearing_eq_nil {hear : LogLine → ω → List τ} (h : e.isAsleep = true ∨ e.phase = .idle) :
    e.hearing hear .work = [] := by
  rw [hearing]
  split
  · rfl
  · next ha => rw [hears, h.resolve_left ha]

theorem Holds.follows {m : Move ω} {h : List Event} (hh : K.Holds a e v) (hk : K.Kept s c a)
    (hset : e.setup = s) (hwf : e.phase.WorksFrom c) (ht : Told c e h) (hst : Standing e)
    (hstop : m ≠ .requestStop)
    (hchange : ∀ w, m = .change w → (K.Raw e.world → K.Raw w) ∧ (K.SetUp e.world → K.SetUp w))
    (hm : Follows e m evs e') :
    K.Holds a e' (v.noteMove (e.hearing K.hear m) evs) ∧ ∀ ev ∈ evs, K.Allows ev := by
  have hquiet : v.noteMove [] [] = v := by simp [Visits.noteMove]
  have hnone : ∀ ev ∈ ([] : List Event), K.Allows ev := List.forall_mem_nil _
  cases hm with
  | claims hl =>
    have hs : e.stopRequested = false := by
      by_contra hs
      exact (hh.stop (by simpa using hs)).2 hl
    exact ⟨hquiet.symm ▸ .of_running hs trivial hh.visited, hnone⟩
  | refused | passes => exact ⟨hquiet.symm ▸ ⟨hh.phase, hh.stop, hh.visited⟩, hnone⟩
  | asked => exact absurd rfl hstop
  | changes w =>
    obtain ⟨hraw, hset⟩ := hchange w rfl
    exact ⟨hquiet.symm ▸ ⟨hh.phase.change hraw hset, hh.stop, hh.visited⟩, hnone⟩
  | holds hidle =>
    rw [hearing_eq_nil hidle, hquiet]
    exact ⟨hh, hnone⟩
  | steps ha hi st =>
    have hhears : e.hearing K.hear .work = e.hears K.hear := by rw [hearing, ha]; rfl
    rw [hhears]
    exact hh.step hk hset hwf ht (hst.claimed hi) st

/-- **What the components keep, every run keeps**: at each moment the engine and the visits are as
the contract says, and no event is shown that it does not allow. -/
theorem holds_after (hk : K.Kept s c a) (w : ω) (σ : Schedule ω) (hσ : K.Spared (fresh s w) σ)
    (n : Nat) : K.Holds a ((fresh s w).after σ n) ((fresh s w).visits K.hear σ n) ∧
      ∀ ev ∈ (fresh s w).history σ n, K.Allows ev := by
  induction n with
  | zero => exact ⟨⟨trivial, nofun, List.forall_mem_nil _⟩, List.forall_mem_nil _⟩
  | succ n ih =>
    obtain ⟨hh, hall⟩ := ih
    obtain ⟨hh', hall'⟩ := hh.follows hk (setup_after (fresh s w) σ n)
      (worksFrom_after hk.loads w σ n) (told_after hk.loads w σ n) (standing_after s w σ n)
      (hσ.stop n) (fun w' hw' => ⟨hσ.raw n w' hw', hσ.setUp n w' hw'⟩) (move_follows _ _)
    rw [history, List.forall_mem_append]
    exact ⟨hh', hall, hall'⟩

end Contract

end TradingBot
