import Mathlib.Data.List.Forall2
import TradingBot.Engine.Step
import TradingBot.Proofs.Validity

/-!
# The plan of a run's assembly

**Effects** (`Effect`). What an observer notes while a run is put together: the configuration is
loaded, a new component's initialisation begins, and the component replies. A beginning shows the
component, what it is to work with, and the program that initialises it.

**Tasks** (`Assembly.Task`). What is to be done: one adapter is set up, and then one strategy is
prepared for each enabled market, in order. A task that cannot be begun is a refusal.
`Assembly.Plans` says which tasks a configuration and a registry make, and `Assembly.Performs` what
tasks show that are performed in order up to the first one that waits or fails.

**Strategies of markets** (`Assembly.Plans.isWired`). When all tasks went well, the strategies that
are wired correspond to the enabled markets.

**Refusals** (`Assembly.refusals`). The errors that a plan comes to by itself. Tasks that go well
have none of them, and if tasks fail with such an error, it is the first one. None of them says that
a market's strategy is not listed.
-/

namespace TradingBot

/-- What an observer notes while a run is put together. -/
inductive Effect (ω ς : Type) where
  | loaded (r : Except Config.Error Config)
  /-- A new adapter's initialisation begins in this world. -/
  | adapterBegins (a : Adapter ω) (w : ω) (init : Program ω (Except Fault Unit))
  | adapterReplied (r : Except Fault Unit)
  /-- A new strategy's initialisation begins, with the exchange that it is given. -/
  | strategyBegins (x : Exchange ω) (i : Wired ω ς)
      (init : Program ω (Except StrategyFault Unit × ς))
  | strategyReplied (r : Except StrategyFault Unit × ς)

variable {ω ς : Type}

/-- The call that an effect is recorded as. -/
def Effect.call? : Effect ω ς → Option Engine.Action
  | .adapterBegins _ _ _ => some .initExchange
  | .strategyBegins _ i _ => some (.initStrategy i.market.id i.strategyId)
  | _ => none

/-- The error comes from a plan, and from no reply of a component. -/
def EngineError.IsForeseen : EngineError → Prop
  | .config _ | .unknownAdapter _ | .unknownStrategy _ | .unlistedStrategy _ _ => True
  | .alreadyStarted _ | .adapterFailed _ _ | .strategyFailed _ _ _ => False

namespace Assembly

/-! ## Tasks -/

inductive Task (ω ς : Type) where
  /-- There is no way on. -/
  | refuse (error : EngineError)
  | setUp (a : Adapter ω) (settings : Config.Exchange)
  | prepare (x : Exchange ω) (m : Config.Market) (c : Config.Strategy) (s : Strategy ω ς)

/-- How far the tasks have come. -/
inductive Progress (ω ς : Type) where
  | underWay
  /-- All went well, and these are the strategies that are wired to markets. -/
  | ready (ws : List (Wired ω ς))
  /-- The start ends like this. -/
  | failed (r : StartEnd)

/-- The new instance that a strategy is prepared as. -/
def newInstance (m : Config.Market) (c : Config.Strategy) (s : Strategy ω ς) : Wired ω ς :=
  { market := Engine.marketOf m, strategyId := c.id, strategy := s, state := s.fresh }

/-- What a task shows when it begins. -/
inductive Task.Begins : Task ω ς → Effect ω ς → Prop
  | adapter (a : Adapter ω) (c : Config.Exchange) (w : ω) :
      Begins (.setUp a c) (.adapterBegins a (a.fresh w) (a.init c).run)
  | strategy (x : Exchange ω) (m : Config.Market) (c : Config.Strategy) (s : Strategy ω ς) :
      Begins (.prepare x m c s) (.strategyBegins x (newInstance m c s)
        (s.init x (Engine.marketOf m) c s.fresh))

/-- What the reply to a task means. -/
inductive Task.Ends : Task ω ς → Effect ω ς → Progress ω ς → Prop
  | isSetUp {a : Adapter ω} {c : Config.Exchange} :
      Ends (.setUp a c) (.adapterReplied (.ok ())) (.ready [])
  | setUpFails {a : Adapter ω} {c : Config.Exchange} (e : ApiError) :
      Ends (.setUp a c) (.adapterReplied (.error (.error e)))
        (.failed (.error (.adapterFailed c.adapter e)))
  | setUpCrashes {a : Adapter ω} {c : Config.Exchange} (crash : Crash) :
      Ends (.setUp a c) (.adapterReplied (.error (.crash crash))) (.failed (.crash crash))
  | isPrepared {x : Exchange ω} {m : Config.Market} {c : Config.Strategy} {s : Strategy ω ς}
      (state : ς) :
      Ends (.prepare x m c s) (.strategyReplied (.ok (), state))
        (.ready [{ newInstance m c s with state }])
  | preparingFails {x : Exchange ω} {m : Config.Market} {c : Config.Strategy} {s : Strategy ω ς}
      {fault : StrategyFault} {message : String} (state : ς) :
      fault = .failure message ∨ (∃ causes, fault = .unexpected message causes) →
      Ends (.prepare x m c s) (.strategyReplied (.error fault, state))
        (.failed (.error (.strategyFailed c.id m.id message)))
  | preparingCrashes {x : Exchange ω} {m : Config.Market} {c : Config.Strategy}
      {s : Strategy ω ς} (crash : Crash) (state : ς) :
      Ends (.prepare x m c s) (.strategyReplied (.error (.crash crash), state))
        (.failed (.crash crash))

/-- What a task shows, and how far it has come then. -/
inductive Task.Shows (t : Task ω ς) : List (Effect ω ς) → Progress ω ς → Prop
  | refuses {error : EngineError} : t = .refuse error → Shows t [] (.failed (.error error))
  | waits {b : Effect ω ς} : t.Begins b → Shows t [b] .underWay
  | ends {b r : Effect ω ς} {p : Progress ω ς} : t.Begins b → t.Ends r p → Shows t [b, r] p

/-- The progress of tasks that follow others which have wired these strategies. -/
def Progress.behind (ws : List (Wired ω ς)) : Progress ω ς → Progress ω ς
  | .ready ws' => .ready (ws ++ ws')
  | p => p

/-- What tasks show that are performed one after another, up to the first that waits or fails. -/
inductive Performs : List (Task ω ς) → List (Effect ω ς) → Progress ω ς → Prop
  | all : Performs [] [] (.ready [])
  | goesOn {t : Task ω ς} {ts : List (Task ω ς)} {es es' : List (Effect ω ς)}
      {ws : List (Wired ω ς)} {p : Progress ω ς} :
      t.Shows es (.ready ws) → Performs ts es' p → Performs (t :: ts) (es ++ es') (p.behind ws)
  | stops {t : Task ω ς} {ts : List (Task ω ς)} {es : List (Effect ω ς)} {p : Progress ω ς} :
      t.Shows es p → (∀ ws, p ≠ .ready ws) → Performs (t :: ts) es p

/-! ## Plans -/

/-- The settings are those of the one strategy that the market names. -/
structure Names (c : Config) (m : Config.Market) (cs : Config.Strategy) : Prop where
  listed : cs ∈ c.strategies
  id : cs.id = m.strategyId
  unique : ∀ t ∈ c.strategies, t.id = m.strategyId → t = cs

/-- The task for an enabled market. -/
inductive Serves (c : Config) (reg : Registry ω ς) (x : Exchange ω) (m : Config.Market) :
    Task ω ς → Prop
  | prepares {cs : Config.Strategy} {s : Strategy ω ς} : Names c m cs →
      reg.strategy? cs.className = some s → Serves c reg x m (.prepare x m cs s)
  | refuses {cs : Config.Strategy} : Names c m cs → reg.strategy? cs.className = none →
      Serves c reg x m (.refuse (.unknownStrategy cs.className))

inductive Plans (s : Engine.Setup ω ς) : List (Task ω ς) → Prop
  | unloadable {error : Config.Error} : s.source.load = .error error →
      Plans s [.refuse (.config error)]
  | adapterless {c : Config} : s.source.load = .ok c →
      s.registry.adapter? c.exchange.adapter = none →
      Plans s [.refuse (.unknownAdapter c.exchange.adapter)]
  | full {c : Config} {a : Adapter ω} {ts : List (Task ω ς)} : s.source.load = .ok c →
      s.registry.adapter? c.exchange.adapter = some a →
      List.Forall₂ (Serves c s.registry a.exchange) c.enabledMarkets ts →
      Plans s (.setUp a c.exchange :: ts)

theorem Names.strategy? {c : Config} {m : Config.Market} {cs : Config.Strategy}
    (h : Names c m cs) : c.strategy? m.strategyId = some cs := by
  cases hf : c.strategy? m.strategyId with
  | none => exact absurd (List.find?_eq_none.mp hf cs h.listed) (by simp [h.id])
  | some t =>
    obtain ⟨hm, hid⟩ := Config.of_strategy? hf
    rw [h.unique t hm hid]

theorem exists_serves {c : Config} (hv : c.Valid) (reg : Registry ω ς) (x : Exchange ω)
    {m : Config.Market} (hm : m ∈ c.enabledMarkets) : ∃ t, Serves c reg x m t := by
  obtain ⟨cs, -, hmem, hid, hu⟩ := hv.exists_strategy hm
  have hn : Names c m cs := ⟨hmem, hid, hu⟩
  cases hr : reg.strategy? cs.className with
  | none => exact ⟨_, .refuses hn hr⟩
  | some s => exact ⟨_, .prepares hn hr⟩

theorem exists_forall₂ {α β : Type} {R : α → β → Prop} {as : List α} (h : ∀ a ∈ as, ∃ b, R a b) :
    ∃ bs, List.Forall₂ R as bs := by
  induction as with
  | nil => exact ⟨[], .nil⟩
  | cons a as ih =>
    obtain ⟨⟨b, hb⟩, has⟩ := List.forall_mem_cons.mp h
    obtain ⟨bs, hbs⟩ := ih has
    exact ⟨b :: bs, .cons hb hbs⟩

/-- Each enabled market of a valid configuration has its task. -/
theorem exists_plan (s : Engine.Setup ω ς) : ∃ ts, Plans s ts := by
  cases hl : s.source.load with
  | error error => exact ⟨_, .unloadable hl⟩
  | ok c =>
    have hv := Config.Source.valid_of_load hl
    cases ha : s.registry.adapter? c.exchange.adapter with
    | none => exact ⟨_, .adapterless hl ha⟩
    | some a =>
      obtain ⟨ts, hts⟩ := exists_forall₂ fun m hm => exists_serves hv s.registry a.exchange hm
      exact ⟨_, .full hl ha hts⟩

/-! ## Tasks performed one after another -/

@[simp] theorem Progress.behind_nil (p : Progress ω ς) : p.behind [] = p := by
  cases p <;> rfl

theorem Progress.behind_append (ws ws' : List (Wired ω ς)) (p : Progress ω ς) :
    p.behind (ws ++ ws') = (p.behind ws').behind ws := by
  cases p <;> simp [behind]

theorem Performs.append {ts ts' : List (Task ω ς)} {es es' : List (Effect ω ς)}
    {q p : Progress ω ς} {ws : List (Wired ω ς)} (h : Performs ts es q) (hq : q = .ready ws)
    (h' : Performs ts' es' p) : Performs (ts ++ ts') (es ++ es') (p.behind ws) := by
  induction h generalizing ws with
  | all =>
    cases hq
    simpa using h'
  | @goesOn t ts es₁ es₂ ws₁ q ht _ ih =>
    cases q with
    | ready ws₂ =>
      cases hq
      rw [List.append_assoc, Progress.behind_append]
      exact .goesOn ht (ih rfl)
    | underWay | failed => cases hq
  | stops _ hn => exact absurd hq (hn ws)

theorem Performs.single {t : Task ω ς} {es : List (Effect ω ς)} {p : Progress ω ς}
    (h : t.Shows es p) : Performs [t] es p := by
  cases p with
  | ready ws => simpa [Progress.behind] using Performs.goesOn h .all
  | underWay | failed => exact .stops h (by simp)

theorem Performs.snoc {ts later : List (Task ω ς)} {t : Task ω ς} {es es' : List (Effect ω ς)}
    {ws : List (Wired ω ς)} {p : Progress ω ς} (h : Performs ts es (.ready ws))
    (ht : t.Shows es' p) (hn : ∀ ws, p ≠ .ready ws) :
    Performs (ts ++ t :: later) (es ++ es') p := by
  have hb : p.behind ws = p := by
    cases p with
    | ready ws => exact absurd rfl (hn ws)
    | underWay | failed => rfl
  exact hb ▸ h.append rfl (.stops ht hn)

theorem Performs.of_cons {t : Task ω ς} {ts : List (Task ω ς)} {es : List (Effect ω ς)}
    {ws : List (Wired ω ς)} (h : Performs (t :: ts) es (.ready ws)) :
    ∃ es₁ es₂ ws₁ ws₂, ws = ws₁ ++ ws₂ ∧ t.Shows es₁ (.ready ws₁) ∧
      Performs ts es₂ (.ready ws₂) := by
  generalize hp : Progress.ready ws = p at h
  cases h with
  | @goesOn _ _ es₁ es₂ ws₁ q ht hrest =>
    cases q with
    | ready ws₂ =>
      cases hp
      exact ⟨es₁, es₂, ws₁, ws₂, rfl, ht, hrest⟩
    | underWay | failed => cases hp
  | stops _ hn => exact absurd hp.symm (hn ws)

/-- A strategy is wired to a market: it stands for the market's own four fields, and it is the one
registered for the class that the market's strategy names. -/
structure IsWired (c : Config) (reg : Registry ω ς) (m : Config.Market) (i : Wired ω ς) :
    Prop where
  market : i.market = { id := m.id, name := m.name, base := m.base, counter := m.counter }
  strategyId : i.strategyId = m.strategyId
  strategy : ∃ cs, Names c m cs ∧ reg.strategy? cs.className = some i.strategy

theorem Performs.isWired {c : Config} {reg : Registry ω ς} {x : Exchange ω}
    {ms : List Config.Market} {ts : List (Task ω ς)} {es : List (Effect ω ς)}
    {ws : List (Wired ω ς)} (hs : List.Forall₂ (Serves c reg x) ms ts)
    (h : Performs ts es (.ready ws)) : List.Forall₂ (IsWired c reg) ms ws := by
  induction hs generalizing es ws with
  | nil =>
    cases h
    exact .nil
  | cons ht _ ih =>
    obtain ⟨es₁, es₂, ws₁, ws₂, rfl, hshow, hrest⟩ := h.of_cons
    cases hshow with
    | ends _ hend =>
      cases ht with
      | prepares hn hr =>
        cases hend with
        | isPrepared state => exact .cons ⟨rfl, hn.id, _, hn, hr⟩ (ih hrest)
      | refuses => cases hend

/-- When the whole plan went well, the strategies that are wired correspond to the enabled markets,
one to one and in order. -/
theorem Plans.isWired {s : Engine.Setup ω ς} {ts : List (Task ω ς)} {es : List (Effect ω ς)}
    {ws : List (Wired ω ς)} {c : Config} {a : Adapter ω} (h : Plans s ts)
    (hl : s.source.load = .ok c) (ha : s.registry.adapter? c.exchange.adapter = some a)
    (hp : Performs ts es (.ready ws)) :
    List.Forall₂ (IsWired c s.registry) c.enabledMarkets ws := by
  cases h with
  | unloadable hl' => cases hl.symm.trans hl'
  | adapterless hl' ha' =>
    cases hl.symm.trans hl'
    cases ha.symm.trans ha'
  | full hl' ha' hs =>
    cases hl.symm.trans hl'
    cases ha.symm.trans ha'
    obtain ⟨es₁, es₂, ws₁, ws₂, rfl, hshow, hrest⟩ := hp.of_cons
    cases hshow with
    | ends _ hend =>
      cases hend with
      | isSetUp => exact hrest.isWired hs

/-! ## Refusals -/

/-- The error of a task that cannot be begun. -/
def Task.refusal? : Task ω ς → Option EngineError
  | .refuse error => some error
  | .setUp _ _ | .prepare _ _ _ _ => none

def refusals (ts : List (Task ω ς)) : List EngineError := ts.filterMap Task.refusal?

theorem mem_refusals {ts : List (Task ω ς)} {error : EngineError} :
    error ∈ refusals ts ↔ .refuse error ∈ ts := by
  rw [refusals, List.mem_filterMap]
  constructor
  · rintro ⟨t, ht, he⟩
    cases t with
    | refuse => exact Option.some.inj he ▸ ht
    | setUp | prepare => cases he
  · intro h
    exact ⟨_, h, rfl⟩

theorem Task.Shows.refusal?_of_ready {t : Task ω ς} {es : List (Effect ω ς)}
    {ws : List (Wired ω ς)} (h : t.Shows es (.ready ws)) : t.refusal? = none := by
  cases h with
  | ends hb => cases hb <;> rfl

theorem Performs.refusals_of_ready {ts : List (Task ω ς)} {es : List (Effect ω ς)}
    {ws : List (Wired ω ς)} (h : Performs ts es (.ready ws)) : refusals ts = [] := by
  induction ts generalizing es ws with
  | nil => rfl
  | cons t ts ih =>
    obtain ⟨_, _, _, _, -, hshow, hrest⟩ := h.of_cons
    rw [refusals, List.filterMap_cons, hshow.refusal?_of_ready]
    exact ih hrest

/-- An error that comes from a plan is the first one there. -/
theorem Performs.head?_refusals {ts : List (Task ω ς)} {es : List (Effect ω ς)}
    {error : EngineError} (h : Performs ts es (.failed (.error error))) (he : error.IsForeseen) :
    (refusals ts).head? = some error := by
  generalize hp : Progress.failed (.error error) = p at h
  induction h with
  | all => cases hp
  | @goesOn _ _ _ _ ws q ht _ ih =>
    rw [refusals, List.filterMap_cons, ht.refusal?_of_ready]
    cases q with
    | ready | underWay => cases hp
    | failed => exact ih hp
  | stops ht =>
    subst hp
    cases ht with
    | refuses ht =>
      subst ht
      rfl
    | ends _ hend => cases hend <;> exact he.elim

/-- No task refuses a market because its strategy is not listed. -/
theorem Plans.listed {s : Engine.Setup ω ς} {ts : List (Task ω ς)} (h : Plans s ts)
    (marketId strategyId : String) :
    ∀ t ∈ ts, t ≠ .refuse (.unlistedStrategy marketId strategyId) := by
  cases h with
  | unloadable | adapterless => simp
  | @full c _ later _ _ hs =>
    refine List.forall_mem_cons.mpr ⟨by simp, ?_⟩
    generalize c.enabledMarkets = ms at hs
    induction hs with
    | nil => simp
    | cons ht _ ih =>
      refine List.forall_mem_cons.mpr ⟨?_, ih⟩
      cases ht <;> simp

/-- Tasks do not fail in a way that only a refusal does which is not among them. -/
theorem Performs.listed {ts : List (Task ω ς)} {es : List (Effect ω ς)}
    {marketId strategyId : String}
    (hn : ∀ t ∈ ts, t ≠ .refuse (.unlistedStrategy marketId strategyId)) :
    ¬ Performs ts es (.failed (.error (.unlistedStrategy marketId strategyId))) := by
  intro h
  have hmem := List.mem_of_head? (h.head?_refusals trivial)
  exact hn _ (mem_refusals.mp hmem) rfl

end Assembly

end TradingBot
