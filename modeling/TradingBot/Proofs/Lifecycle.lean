import TradingBot.Proofs.CallTrace

/-!
# The life of an engine

**The invariant** (`Engine.Standing`). Before the first start there is no call of start on record.
After it, the first call on record is the one that claimed the engine, and all others were refused.
The stage tells how far the first one has come: it is at work or has broken off while the engine
runs, and has returned when the engine is shut down.

**Ends of a start** (`Engine.Outcome`). A move lets the start at work go on, breaks it off, or
returns its result. It breaks off only where a component cannot be initialised because of a crash,
or where the clock cannot show the deadline of a pause.

**Theorem (`Engine.livesOnce_after`).** In every order of moves, an engine lives once.
-/

namespace TradingBot

def Lifecycle.rank : Lifecycle → Nat
  | .notStarted => 0
  | .running => 1
  | .shutdown => 2

theorem Lifecycle.rank_inj {a b : Lifecycle} (h : a.rank = b.rank) : a = b := by
  cases a <;> cases b <;> simp_all [rank]

theorem Lifecycle.rank_le (l : Lifecycle) : l.rank ≤ Lifecycle.shutdown.rank := by
  cases l <;> simp [rank]

/-- The engine was claimed before. -/
def StartEnd.IsRefusal : StartEnd → Prop
  | .error (.alreadyStarted _) => True
  | _ => False

/-- The start that claimed the engine has returned, well or with an error about its parts. -/
def StartEnd.IsReturn : StartEnd → Prop
  | .ok => True
  | .error (.alreadyStarted _) => False
  | .error _ => True
  | .crash _ => False

theorem StartEnd.IsReturn.not_isRefusal {r : StartEnd} (h : r.IsReturn) : ¬ r.IsRefusal := by
  match r with
  | .ok | .crash _ => exact id
  | .error (.alreadyStarted _) => exact h.elim
  | .error (.config _) | .error (.unknownAdapter _) | .error (.unknownStrategy _) => exact id
  | .error (.adapterFailed _ _) | .error (.unlistedStrategy _ _) => exact id
  | .error (.strategyFailed _ _ _) => exact id

namespace Engine

variable {ω ς : Type}

/-! ## The configuration that a phase works with -/

def Phase.settings? : Phase ω ς → Option Config.Engine
  | .settingUp config _ _ => some config.engine
  | .wiring config _ _ _ _ _ => some config.engine
  | .checking run => some run.settings
  | .fetching run _ => some run.settings
  | .executing run _ _ _ _ => some run.settings
  | .pausing run _ => some run.settings
  | .idle | .loading | .alerting _ | .leaving _ => none

/-- The seconds between two cycles. -/
def interval (e : Engine ω ς) : Nat :=
  match e.setup.source.load with
  | .ok config => config.engine.cycleInterval.toNat
  | .error _ => 0

/-- The phase works with the settings of the configuration. -/
def Settled (e : Engine ω ς) : Prop :=
  ∀ settings, e.phase.settings? = some settings →
    ∃ config, e.setup.source.load = .ok config ∧ settings = config.engine

variable {e e' : Engine ω ς} {run : Run ω ς} {evs : List Event}

theorem interval_congr (h : e'.setup = e.setup) : e'.interval = e.interval := by
  rw [interval, interval, h]

theorem interval_eq {config : Config} (h : e.setup.source.load = .ok config) :
    e.interval = config.engine.cycleInterval.toNat := by
  rw [interval, h]

theorem Settled.interval {settings : Config.Engine} (h : e.Settled)
    (hs : e.phase.settings? = some settings) : settings.cycleInterval.toNat = e.interval := by
  obtain ⟨config, hl, rfl⟩ := h settings hs
  exact (interval_eq hl).symm

/-- The settings are those of before, or there are none. -/
def KeepsSettings (settings : Config.Engine) (p : Phase ω ς) : Prop :=
  ∀ settings', p.settings? = some settings' → settings' = settings

theorem Rests.keepsSettings (h : Rests e run e') : KeepsSettings run.settings e'.phase := by
  intro settings hs
  cases h with
  | pauses => exact (Option.some.inj hs).symm
  | breaksOff => cases hs

theorem Dispatches.keepsSettings {finished left : List (Wired ω ς)}
    (h : Dispatches e run finished left evs e') : KeepsSettings run.settings e'.phase := by
  cases h with
  | ends hr => exact hr.keepsSettings
  | executes => exact fun settings hs => (Option.some.inj hs).symm

theorem Wires.keepsSettings {config : Config} {x : Exchange ω} {ready : List (Wired ω ς)}
    {left : List Config.Market} (h : Wires e config x ready left evs e') :
    KeepsSettings config.engine e'.phase := by
  intro settings hs
  cases h with
  | enters | inits => exact (Option.some.inj hs).symm
  | unlisted | unknown => cases hs

theorem Settled.step (h : e.Settled) (st : Step e evs e') : e'.Settled := by
  intro settings hs
  rw [st.stays.setup]
  have hold {old : Config.Engine} (hp : e.phase.settings? = some old) (he : settings = old) :
      ∃ config, e.setup.source.load = .ok config ∧ settings = config.engine := h _ (he ▸ hp)
  cases st with
  | waits hsus hp ht =>
    refine h settings ?_
    rw [hp]
    cases hsus <;> exact hs
  | loads hp hl =>
    cases hs
    exact ⟨_, hl, rfl⟩
  | setsUp hp ht hw | strategyReady hp ht hw =>
    exact hold (by rw [hp]; rfl) (hw.keepsSettings _ hs)
  | fetches hp | ticks hp | resumes hp =>
    refine h settings ?_
    rw [hp]
    first | exact hs | (rw [hp] at hs; exact hs)
  | begins hp _ _ hd | passes hp _ _ _ hd | executes hp _ hd =>
    exact hold (by rw [hp]; rfl) (hd.keepsSettings _ hs)
  | skips hp _ hr => exact hold (by rw [hp]; rfl) (hr.keepsSettings _ hs)
  | _ => cases hs

/-! ## Ends of a start -/

/-- Whether the component that is being initialised crashes on the next move. -/
def initCrashes (e : Engine ω ς) : Bool :=
  match e.phase with
  | .settingUp _ _ p =>
    match (e.turn p).rest with
    | .inl (.error (.crash _)) => true
    | _ => false
  | .wiring _ _ _ _ _ p =>
    match (e.turn p).rest with
    | .inl (.error (.crash _), _) => true
    | _ => false
  | _ => false

/-- A cycle has ended whose pause is longer than the clock can show. -/
def Overflows (e e' : Engine ω ς) : Prop :=
  e'.cycles = e.cycles + 1 ∧ ∃ settings, e.phase.settings? = some settings ∧
    ¬ e.CanShow settings.cycleInterval.toNat

/-- What a move means for the start at work. -/
inductive Outcome (e e' : Engine ω ς) : Prop
  | goesOn : e'.lifecycle = e.lifecycle → e'.starts = e.starts → e'.phase ≠ .idle →
      (∀ r, e.phase ≠ .leaving r) → (∀ r, e'.phase = .leaving r → r.IsReturn) → Outcome e e'
  | breaksOff (c : Crash) : e'.lifecycle = e.lifecycle → e'.starts = e.concluded (.crash c) →
      e'.phase = .idle → e.initCrashes = true ∨ Overflows e e' → Outcome e e'
  | returns {r : StartEnd} : e.phase = .leaving r → e'.lifecycle = .shutdown →
      e'.starts = e.concluded r → e'.phase = .idle → Outcome e e'

/-- `d` is `e`, as far as its start goes. -/
structure SameStart (e d : Engine ω ς) : Prop where
  setup : d.setup = e.setup
  lifecycle : d.lifecycle = e.lifecycle
  starts : d.starts = e.starts
  cycles : d.cycles = e.cycles
  now : d.now = e.now
  actions : d.actions = e.actions

theorem SameStart.refl (e : Engine ω ς) : SameStart e e := ⟨rfl, rfl, rfl, rfl, rfl, rfl⟩

theorem SameStart.turn {α : Type} (e : Engine ω ς) (p : Program ω α) :
    SameStart e (e.afterTurn p) := by
  constructor <;> simp

theorem SameStart.canShow {d : Engine ω ς} (h : SameStart e d) {seconds : Nat} :
    d.CanShow seconds ↔ e.CanShow seconds := by
  rw [CanShow, CanShow, h.setup, h.now]

theorem SameStart.concluded {d : Engine ω ς} (h : SameStart e d) (r : StartEnd) :
    d.concluded r = e.concluded r := by
  rw [Engine.concluded, h.starts, Engine.concluded]

theorem Rests.outcome {d : Engine ω ς} (h : Rests d run e') (hd : SameStart e d)
    (hp : e.phase.settings? = some run.settings) : Outcome e e' := by
  cases h with
  | pauses =>
    refine .goesOn hd.lifecycle hd.starts (by simp) (fun r hr => ?_) (by simp)
    rw [hr] at hp
    cases hp
  | breaksOff hc =>
    refine .breaksOff _ hd.lifecycle (hd.concluded _) rfl (.inr ⟨?_, _, hp, ?_⟩)
    · exact congrArg (· + 1) hd.cycles
    · exact fun h => hc (hd.canShow.mpr h)

theorem Dispatches.outcome {d : Engine ω ς} {finished left : List (Wired ω ς)}
    (h : Dispatches d run finished left evs e') (hd : SameStart e d)
    (hp : e.phase.settings? = some run.settings) : Outcome e e' := by
  cases h with
  | ends hr => exact hr.outcome hd hp
  | executes =>
    refine .goesOn hd.lifecycle hd.starts (by simp) (fun r hr => ?_) (by simp)
    rw [hr] at hp
    cases hp

theorem Wires.outcome {config : Config} {x : Exchange ω} {ready : List (Wired ω ς)}
    {left : List Config.Market} {d : Engine ω ς} (h : Wires d config x ready left evs e')
    (hd : SameStart e d) (hp : ∀ r, e.phase ≠ .leaving r) : Outcome e e' := by
  cases h with
  | enters | inits => exact .goesOn hd.lifecycle hd.starts (by simp) hp (by simp)
  | unlisted | unknown =>
    refine .goesOn hd.lifecycle hd.starts (by simp) hp fun r hr => ?_
    cases hr
    trivial

theorem Outcome.leaving {d : Engine ω ς} {r : StartEnd} (hd : SameStart e d)
    (hp : ∀ r, e.phase ≠ .leaving r) (hl : e'.lifecycle = d.lifecycle)
    (hs : e'.starts = d.starts) (hr : e'.phase = .leaving r) (hret : r.IsReturn) :
    Outcome e e' := by
  refine .goesOn (hl.trans hd.lifecycle) (hs.trans hd.starts) (by simp [hr]) hp fun q hq => ?_
  rw [hr] at hq
  cases hq
  exact hret

/-- **Each move** lets the start at work go on, breaks it off, or returns its result. -/
theorem Step.outcome (st : Step e evs e') : Outcome e e' := by
  -- Most rules go on. A result is about to be returned where one of the phases before the loop
  -- fails, the loop is left or the alert is out, and a start breaks off only where an
  -- initialisation crashes or a cycle ends.
  cases st with
  | waits hsus hp ht =>
    refine .goesOn (afterTurn_lifecycle e _) (afterTurn_starts e _) ?_ ?_ ?_
    · cases hsus <;> simp
    · rw [hp]
      cases hsus <;> simp
    · cases hsus <;> simp
  | loadFails hp | adapterUnknown hp => exact .leaving (.refl e) (by simp [hp]) rfl rfl rfl trivial
  | loads hp => exact .goesOn rfl rfl (by simp) (by simp [hp]) (by simp)
  | setUpFails hp | strategyFails hp =>
    exact .leaving (.turn e _) (by simp [hp]) rfl rfl rfl trivial
  | @setUpCrashes _ _ p c _ hp ht =>
    have hd := SameStart.turn e p
    refine .breaksOff c hd.lifecycle (hd.concluded _) rfl (.inl ?_)
    simp [initCrashes, hp, ht]
  | @strategyCrashes _ _ _ _ _ p c state _ hp ht =>
    have hd := SameStart.turn e p
    refine .breaksOff c hd.lifecycle (hd.concluded _) rfl (.inl ?_)
    simp [initCrashes, hp, ht]
  | setsUp hp ht hw | strategyReady hp ht hw => exact hw.outcome (.turn e _) (by simp [hp])
  | seesStop hp => exact .leaving (.refl e) (by simp [hp]) rfl rfl rfl trivial
  | fetches hp => exact .goesOn rfl rfl (by simp) (by simp [hp]) (by simp)
  | begins hp _ _ hd => exact hd.outcome (.refl e) (by rw [hp]; rfl)
  | passes hp _ _ _ hd | executes hp _ hd =>
    exact hd.outcome (.turn e _) (by rw [hp]; rfl)
  | skips hp _ hr => exact hr.outcome (.turn e _) (by rw [hp]; rfl)
  | fetchIsFatal hp | executeIsFatal hp =>
    refine .goesOn (afterTurn_lifecycle e _) (afterTurn_starts e _) ?_ ?_ ?_
    · simp
    · simp [hp]
    · simp
  | alerted hp => exact .leaving (.turn e _) (by simp [hp]) rfl rfl rfl trivial
  | ticks hp => exact .goesOn rfl rfl (by simp [hp]) (by simp [hp]) (by simp [hp])
  | resumes hp => exact .goesOn rfl rfl (by simp) (by simp [hp]) (by simp)
  | leaves hp => exact .returns hp rfl rfl rfl

/-! ## Ends of cycles -/

theorem Dispatches.rests {d : Engine ω ς} {finished left : List (Wired ω ς)}
    (h : Dispatches d run finished left evs e') (hc : e'.cycles = d.cycles + 1) :
    ∃ run', run'.settings = run.settings ∧ Rests d run' e' := by
  cases h with
  | ends hr => exact ⟨{ run with markets := finished }, rfl, hr⟩
  | executes => exact absurd hc.symm (Nat.succ_ne_self _)

theorem Wires.cycles {d : Engine ω ς} {config : Config} {x : Exchange ω}
    {ready : List (Wired ω ς)} {left : List Config.Market}
    (h : Wires d config x ready left evs e') : e'.cycles = d.cycles := by
  cases h <;> rfl

/-- A move that counts a cycle is one of a run in its loop, and ends the cycle. -/
theorem Step.rests (st : Step e evs e') (hc : e'.cycles = e.cycles + 1) :
    ∃ d run, SameStart e d ∧ e.phase.InLoop ∧ e.phase.settings? = some run.settings ∧
      Rests d run e' := by
  have hends {d : Engine ω ς} {run : Run ω ς} {finished left : List (Wired ω ς)}
      {l : List Event} (hd : SameStart e d) (hp : e.phase.InLoop)
      (hs : e.phase.settings? = some run.settings) (h : Dispatches d run finished left l e') :
      ∃ d run, SameStart e d ∧ e.phase.InLoop ∧ e.phase.settings? = some run.settings ∧
        Rests d run e' := by
    obtain ⟨run', hs', hr⟩ := h.rests (by rw [hc, hd.cycles])
    exact ⟨d, run', hd, hp, hs.trans (congrArg some hs'.symm), hr⟩
  cases st with
  | begins hp _ _ h => exact hends (.refl e) (by rw [hp]; trivial) (by rw [hp]; rfl) h
  | passes hp _ _ _ h | executes hp _ h =>
    exact hends (.turn e _) (by rw [hp]; trivial) (by rw [hp]; rfl) h
  | skips hp _ hr => exact ⟨_, _, .turn e _, by rw [hp]; trivial, by rw [hp]; rfl, hr⟩
  | setsUp _ _ hw | strategyReady _ _ hw => simp [hw.cycles] at hc
  | _ => simp at hc

theorem Follows.cycles {m : Move ω} (hm : Follows e m evs e') :
    e'.cycles = e.cycles ∨ e'.cycles = e.cycles + 1 := by
  have hrests {d : Engine ω ς} {run : Run ω ς} (h : Rests d run e') :
      e'.cycles = d.cycles + 1 := by
    cases h <;> rfl
  have hdisp {d : Engine ω ς} {run : Run ω ς} {finished left : List (Wired ω ς)}
      {l : List Event} (h : Dispatches d run finished left l e') :
      e'.cycles = d.cycles ∨ e'.cycles = d.cycles + 1 := by
    cases h with
    | ends hr => exact .inr (hrests hr)
    | executes => exact .inl rfl
  cases hm with
  | claims | refused | asked | passes | changes | holds => exact .inl rfl
  | steps _ _ st =>
    cases st with
    | setsUp _ _ hw | strategyReady _ _ hw =>
      rw [hw.cycles, afterTurn_cycles]
      exact .inl rfl
    | begins _ _ _ hd => exact hdisp hd
    | passes _ _ _ _ hd | executes _ _ hd =>
      rw [← afterTurn_cycles e]
      exact hdisp hd
    | skips _ _ hr => exact .inr (by rw [hrests hr, afterTurn_cycles])
    | _ => exact .inl (by simp)

/-! ## The calls of start -/

def AllRefused (calls : List (Option StartEnd)) : Prop :=
  ∀ call ∈ calls, ∃ r, call = some r ∧ r.IsRefusal

/-- The calls on record fit the stage. -/
inductive Standing (e : Engine ω ς) : Prop
  | unstarted : e.lifecycle = .notStarted → e.phase = .idle → e.starts = [] → Standing e
  | atWork {others : List (Option StartEnd)} : e.lifecycle = .running → e.phase ≠ .idle →
      (∀ r, e.phase = .leaving r → r.IsReturn) → e.starts = none :: others → AllRefused others →
      Standing e
  | broken {c : Crash} {others : List (Option StartEnd)} : e.lifecycle = .running →
      e.phase = .idle → e.starts = some (.crash c) :: others → AllRefused others → Standing e
  | returned {r : StartEnd} {others : List (Option StartEnd)} : e.lifecycle = .shutdown →
      e.phase = .idle → e.starts = some r :: others → r.IsReturn → AllRefused others → Standing e

theorem AllRefused.add {calls : List (Option StartEnd)} (h : AllRefused calls) (l : Lifecycle) :
    AllRefused (calls ++ [some (.error (.alreadyStarted l))]) := by
  intro call hc
  rcases List.mem_append.mp hc with hc | hc
  · exact h call hc
  · exact ⟨_, List.mem_singleton.mp hc, trivial⟩

/-- The end of the start at work is not the end of the calls that were refused. -/
theorem AllRefused.concluded {others : List (Option StartEnd)} (h : AllRefused others)
    (hs : e.starts = none :: others) (r : StartEnd) : e.concluded r = some r :: others := by
  have hmap : others.map (fun call => call.or (some r)) = others.map id := by
    refine List.map_congr_left fun call hc => ?_
    obtain ⟨q, rfl, -⟩ := h call hc
    rfl
  rw [Engine.concluded, hs, List.map_cons, hmap, List.map_id]
  rfl

theorem Standing.idle_of_notStarted (h : Standing e) (hl : e.lifecycle = .notStarted) :
    e.phase = .idle ∧ e.starts = [] := by
  cases h with
  | unstarted _ hp hs => exact ⟨hp, hs⟩
  | atWork hr | broken hr | returned hr =>
    rw [hl] at hr
    cases hr

theorem Standing.claimed (h : Standing e) (hi : e.phase ≠ .idle) : e.lifecycle ≠ .notStarted :=
  fun hl => hi (h.idle_of_notStarted hl).1

theorem Standing.head?_of_busy (h : Standing e) (hi : e.phase ≠ .idle) :
    e.starts.head? = some none := by
  cases h with
  | unstarted _ hp | broken _ hp | returned _ hp => exact absurd hp hi
  | atWork _ _ _ hst => rw [hst, List.head?_cons]

theorem Standing.step (h : Standing e) (hi : e.phase ≠ .idle) (st : Step e evs e') :
    Standing e' := by
  cases h with
  | unstarted _ hp | broken _ hp | returned _ hp => exact absurd hp hi
  | atWork hl _ hret hs ho =>
    cases st.outcome with
    | goesOn hl' hs' hp' _ hr' => exact .atWork (hl'.trans hl) hp' hr' (hs'.trans hs) ho
    | breaksOff c hl' hs' hp' _ =>
      exact .broken (hl'.trans hl) hp' (hs'.trans (ho.concluded hs _)) ho
    | returns hp hl' hs' hp' =>
      exact .returned hl' hp' (hs'.trans (ho.concluded hs _)) (hret _ hp) ho

theorem Standing.refused (h : Standing e) (hl : e.lifecycle ≠ .notStarted) :
    Standing { e with starts := e.starts ++ [some (.error (.alreadyStarted e.lifecycle))] } := by
  cases h with
  | unstarted hn => exact absurd hn hl
  | atWork hr hp hret hs ho => exact .atWork hr hp hret (by rw [hs]; rfl) (ho.add _)
  | broken hr hp hs ho => exact .broken hr hp (by rw [hs]; rfl) (ho.add _)
  | returned hr hp hs hret ho => exact .returned hr hp (by rw [hs]; rfl) hret (ho.add _)

theorem Standing.follows {m : Move ω} (h : Standing e) (hm : Follows e m evs e') :
    Standing e' := by
  cases hm with
  | claims hl =>
    obtain ⟨-, hs⟩ := h.idle_of_notStarted hl
    exact .atWork rfl (by simp) (by simp) (by rw [hs]; rfl) (by simp [AllRefused])
  | refused hl => exact h.refused hl
  | asked | passes | changes | holds =>
    cases h with
    | unstarted hl hp hs => exact .unstarted hl hp hs
    | atWork hl hp hret hs ho => exact .atWork hl hp hret hs ho
    | broken hl hp hs ho => exact .broken hl hp hs ho
    | returned hl hp hs hret ho => exact .returned hl hp hs hret ho
  | steps _ hi st => exact h.step hi st

theorem standing_fresh (s : Setup ω ς) (w : ω) : Standing (fresh s w) := .unstarted rfl rfl rfl

theorem standing_after (s : Setup ω ς) (w : ω) (σ : Schedule ω) (n : Nat) :
    Standing ((fresh s w).after σ n) :=
  after_of_le (fun _ _ _ _ hm h => h.follows hm) (Nat.zero_le n) (standing_fresh s w)

theorem Follows.length_starts {m : Move ω} (hm : Follows e m evs e') (hn : m ≠ .start) :
    e'.starts.length = e.starts.length := by
  cases hm with
  | claims | refused => exact absurd rfl hn
  | asked | passes | changes | holds => rfl
  | steps _ _ st =>
    cases st.outcome with
    | goesOn _ hst => rw [hst]
    | breaksOff _ _ hst | returns _ _ hst => rw [hst, concluded, List.length_map]

theorem length_starts_after (e : Engine ω ς) {σ : Schedule ω} (hσ : ∀ n, σ n ≠ .start) (n : Nat) :
    (e.after σ n).starts.length = e.starts.length := by
  induction n with
  | zero => rfl
  | succ n ih => exact ((move_follows _ _).length_starts (hσ n)).trans ih

/-! ## The stage -/

theorem Standing.forward {m : Move ω} (h : Standing e) (hm : Follows e m evs e') :
    e'.lifecycle = e.lifecycle ∨
      (e.lifecycle = .notStarted ∧ e'.lifecycle = .running) ∨
      (e.lifecycle = .running ∧ e'.lifecycle = .shutdown) := by
  cases hm with
  | claims hl => exact .inr (.inl ⟨hl, rfl⟩)
  | refused | asked | passes | changes | holds => exact .inl rfl
  | steps _ hi st =>
    cases h with
    | unstarted _ hp | broken _ hp | returned _ hp => exact absurd hp hi
    | atWork hl =>
      rcases st.stays.lifecycle with hs | hs
      · exact .inl hs
      · exact .inr (.inr ⟨hl, hs⟩)

theorem Standing.rank_le {m : Move ω} (h : Standing e) (hm : Follows e m evs e') :
    e.lifecycle.rank ≤ e'.lifecycle.rank := by
  rcases h.forward hm with hl | ⟨hl, hl'⟩ | ⟨hl, hl'⟩
  · rw [hl]
  · simp [hl, hl', Lifecycle.rank]
  · simp [hl, hl', Lifecycle.rank]

theorem rank_mono (s : Setup ω ς) (w : ω) (σ : Schedule ω) {m n : Nat} (h : m ≤ n) :
    ((fresh s w).after σ m).lifecycle.rank ≤ ((fresh s w).after σ n).lifecycle.rank := by
  induction h with
  | refl => exact Nat.le_refl _
  | step _ ih => exact ih.trans ((standing_after s w σ _).rank_le (move_follows _ _))

theorem Standing.stays_new {m : Move ω} (h : Standing e) (hm : Follows e m evs e')
    (hl : e.lifecycle = .notStarted) (hs : m ≠ .start) : e'.lifecycle = .notStarted := by
  cases hm with
  | claims | refused => exact absurd rfl hs
  | asked | passes | changes | holds => exact hl
  | steps _ hi => exact absurd (h.idle_of_notStarted hl).1 hi

theorem not_new_of_start (hm : Follows e .start evs e') : e'.lifecycle ≠ .notStarted := by
  cases hm with
  | claims => simp
  | refused hl => exact hl

theorem notStarted_iff (s : Setup ω ς) (w : ω) (σ : Schedule ω) (n : Nat) :
    ((fresh s w).after σ n).lifecycle = .notStarted ↔ ∀ m < n, σ m ≠ .start := by
  induction n with
  | zero => exact ⟨fun _ m hm => absurd hm (Nat.not_lt_zero m), fun _ => rfl⟩
  | succ n ih =>
    have hstand := standing_after s w σ n
    have hmove := move_follows ((fresh s w).after σ n) (σ n)
    constructor
    · intro hl m hm hstart
      rcases Nat.lt_succ_iff_lt_or_eq.mp hm with hm | rfl
      · have hrank := rank_mono s w σ (Nat.le_succ n)
        rw [hl] at hrank
        exact ih.mp (Lifecycle.rank_inj (Nat.le_zero.mp hrank)) m hm hstart
      · rw [hstart] at hmove
        exact not_new_of_start hmove (by rwa [after, hstart] at hl)
    · intro hs
      have hn := ih.mpr fun m hm => hs m (Nat.lt_succ_of_lt hm)
      exact hstand.stays_new hmove hn (hs n (Nat.lt_succ_self n))

/-! ## Starts that are not broken off -/

/-- In the first so many moves no initialisation crashes. -/
def InitsHold (e : Engine ω ς) (σ : Schedule ω) (n : Nat) : Prop :=
  ∀ m < n, σ m = .work → (e.after σ m).isAsleep = false → (e.after σ m).initCrashes = false

/-- In the first so many moves the clock can show the end of every pause. -/
def DeadlinesFit (e : Engine ω ς) (σ : Schedule ω) (n : Nat) : Prop :=
  ∀ m < n, (e.after σ (m + 1)).cycles = (e.after σ m).cycles + 1 →
    (e.after σ m).CanShow e.interval

theorem Settled.follows {m : Move ω} (h : e.Settled) (hm : Follows e m evs e') : e'.Settled := by
  cases hm with
  | claims =>
    intro settings hs
    cases hs
  | refused | asked | passes | changes | holds => exact h
  | steps _ _ st => exact h.step st

theorem settled_after (s : Setup ω ς) (w : ω) (σ : Schedule ω) (n : Nat) :
    ((fresh s w).after σ n).Settled := by
  refine after_of_le (fun _ _ _ _ hm h => h.follows hm) (Nat.zero_le n) fun settings hs => ?_
  cases hs

theorem Follows.setup {m : Move ω} (hm : Follows e m evs e') : e'.setup = e.setup := by
  cases hm with
  | claims | refused | asked | passes | changes | holds => rfl
  | steps _ _ st => exact st.stays.setup

theorem setup_after (e : Engine ω ς) (σ : Schedule ω) (n : Nat) : (e.after σ n).setup = e.setup :=
  after_of_le (P := fun d => d.setup = e.setup) (fun _ _ _ _ hm h => hm.setup.trans h)
    (Nat.zero_le n) rfl

theorem Follows.atWork {m : Move ω} (hm : Follows e m evs e') (hset : e.Settled)
    (hcrash : m = .work → e.isAsleep = false → e.initCrashes = false)
    (hfit : e'.cycles = e.cycles + 1 → e.CanShow e.interval)
    (h : e.lifecycle = .running → e.phase ≠ .idle) :
    e'.lifecycle = .running → e'.phase ≠ .idle := by
  intro hl
  cases hm with
  | claims => simp
  | refused | asked | passes | changes | holds => exact h hl
  | steps ha hi st =>
    cases st.outcome with
    | goesOn _ _ hp => exact hp
    | breaksOff c _ _ _ hwhy =>
      rcases hwhy with hc | ⟨hcyc, settings, hs, hn⟩
      · rw [hcrash rfl ha] at hc
        cases hc
      · rw [hset.interval hs] at hn
        exact absurd (hfit hcyc) hn
    | returns _ hl' => cases hl'.symm.trans hl

theorem atWork_after {s : Setup ω ς} {w : ω} {σ : Schedule ω} {n : Nat}
    (hi : (fresh s w).InitsHold σ n) (hd : (fresh s w).DeadlinesFit σ n) :
    ((fresh s w).after σ n).lifecycle = .running → ((fresh s w).after σ n).phase ≠ .idle := by
  induction n with
  | zero =>
    intro hl
    cases hl
  | succ n ih =>
    have ih := ih (fun m hm => hi m (Nat.lt_succ_of_lt hm)) fun m hm => hd m (Nat.lt_succ_of_lt hm)
    have hset := settled_after s w σ n
    have hint := interval_congr (setup_after (fresh s w) σ n)
    refine (move_follows _ (σ n)).atWork hset (hi n (Nat.lt_succ_self n)) (fun hc => ?_) ih
    rw [hint]
    exact hd n (Nat.lt_succ_self n) hc

/-! ## One life -/

/-- How the stage, the calls of start and the requests to stop go together in a run, of which `e`
gives the engine at each moment. -/
structure LivesOnce (σ : Schedule ω) (e : Nat → Engine ω ς) : Prop where
  /-- The stage stays or goes one step forward. -/
  forward : ∀ n, (e (n + 1)).lifecycle = (e n).lifecycle ∨
    ((e n).lifecycle = .notStarted ∧ (e (n + 1)).lifecycle = .running) ∨
    ((e n).lifecycle = .running ∧ (e (n + 1)).lifecycle = .shutdown)
  /-- No step forward is made twice. -/
  once : ∀ m n, (e m).lifecycle = (e n).lifecycle → (e (m + 1)).lifecycle ≠ (e m).lifecycle →
    (e (n + 1)).lifecycle ≠ (e n).lifecycle → m = n
  /-- As soon as start has been called, exactly one call has found the engine new. -/
  claimed : ∀ n, (∃ m < n, σ m = .start) →
    ∃! m, m < n ∧ σ m = .start ∧ (e m).lifecycle = .notStarted
  /-- That call is at work from then on, and comes first on record. -/
  claims : ∀ n, σ n = .start → (e n).lifecycle = .notStarted →
    (e (n + 1)).lifecycle = .running ∧ (e (n + 1)).phase = .loading ∧ (e (n + 1)).starts = [none]
  /-- Every other call is refused at once, with the stage that it met, and leaves the engine as it
  is. -/
  refused : ∀ n, σ n = .start → (e n).lifecycle ≠ .notStarted → ∃ error,
    error = EngineError.alreadyStarted (e n).lifecycle ∧
    e (n + 1) = { e n with starts := (e n).starts ++ [some (.error error)] } ∧
    ((e n).lifecycle = .running →
      error.message = "invalid engine state: engine is already running") ∧
    ((e n).lifecycle = .shutdown → error.message =
      "invalid engine state: engine has already been shut down and cannot be restarted")
  /-- On record are the call that claimed the engine, which was not refused, and refused ones. -/
  record : ∀ n, (∃ m < n, σ m = .start) → ∃ call others, (e n).starts = call :: others ∧
    (∀ r, call = some r → ¬ r.IsRefusal) ∧ AllRefused others
  /-- The result of a call is final. -/
  final : ∀ (m n i : Nat) (r : StartEnd), m ≤ n → (e m).starts[i]? = some (some r) →
    (e n).starts[i]? = some (some r)
  /-- A request to stop sets the flag, and nothing more. -/
  stop : ∀ n, σ n = .requestStop →
    ∃ lines, e (n + 1) = { e n with stopRequested := true, lines }
  /-- The flag stays set, and another request has no effect at all. -/
  again : ∀ m n, m ≤ n → (e m).stopRequested = true →
    (e n).stopRequested = true ∧ (σ n = .requestStop → e (n + 1) = e n)
  /-- When the call that claimed the engine has returned, well or with an error, the engine is shut
  down for ever. -/
  returned : ∀ n r others, (e n).starts = some r :: others → (∀ c, r ≠ .crash c) →
    r.IsReturn ∧ ∀ m, n ≤ m → (e m).lifecycle = .shutdown
  /-- It returns unless it crashes at an initialisation or at a deadline. -/
  unbroken : ∀ n, (e 0).InitsHold σ n → (e 0).DeadlinesFit σ n →
    ∀ r others, (e n).starts = some r :: others → r.IsReturn

theorem rank_lt_of_step {s : Setup ω ς} {w : ω} {σ : Schedule ω} {m n : Nat} (h : m < n)
    (hm : ((fresh s w).after σ (m + 1)).lifecycle ≠ ((fresh s w).after σ m).lifecycle) :
    ((fresh s w).after σ m).lifecycle.rank < ((fresh s w).after σ n).lifecycle.rank := by
  have hle := rank_mono s w σ (Nat.le_succ m)
  have hlt := Nat.lt_of_le_of_ne hle fun he => hm (Lifecycle.rank_inj he).symm
  exact hlt.trans_le (rank_mono s w σ h)

theorem Follows.final {m : Move ω} (hm : Follows e m evs e') {i : Nat} {r : StartEnd}
    (h : e.starts[i]? = some (some r)) : e'.starts[i]? = some (some r) := by
  have hlt : i < e.starts.length := (List.getElem?_eq_some_iff.mp h).1
  have hend (q : StartEnd) : (e.concluded q)[i]? = some (some r) := by
    rw [concluded, List.getElem?_map, h]
    rfl
  cases hm with
  | claims | refused => exact (List.getElem?_append_left hlt).trans h
  | asked | passes | changes | holds => exact h
  | steps _ _ st =>
    cases st.outcome with
    | goesOn _ hs => rwa [hs]
    | breaksOff _ _ hs => rw [hs, hend]
    | returns _ _ hs => rw [hs, hend]

theorem Follows.stopRequested {m : Move ω} (hm : Follows e m evs e')
    (h : e.stopRequested = true) : e'.stopRequested = true := by
  cases hm with
  | claims | refused | passes | changes | holds => exact h
  | asked => rfl
  | steps _ _ st => exact st.stays.stopRequested h

theorem stopRequested_after {e : Engine ω ς} {σ : Schedule ω} {m n : Nat} (h : m ≤ n)
    (hs : (e.after σ m).stopRequested = true) : (e.after σ n).stopRequested = true :=
  after_of_le (P := fun d => d.stopRequested = true) (fun _ _ _ _ hm h => hm.stopRequested h) h hs

theorem Standing.shutdown_of_returned (h : Standing e) {r : StartEnd}
    {others : List (Option StartEnd)} (hs : e.starts = some r :: others)
    (hr : ∀ c, r ≠ .crash c) : r.IsReturn ∧ e.lifecycle = .shutdown := by
  cases h with
  | unstarted _ _ hs' => cases hs.symm.trans hs'
  | atWork _ _ _ hs' => cases hs.symm.trans hs'
  | broken _ _ hs' =>
    cases hs.symm.trans hs'
    exact absurd rfl (hr _)
  | returned hl _ hs' hret =>
    cases hs.symm.trans hs'
    exact ⟨hret, hl⟩

theorem Standing.record (h : Standing e) (hl : e.lifecycle ≠ .notStarted) :
    ∃ call others, e.starts = call :: others ∧ (∀ r, call = some r → ¬ r.IsRefusal) ∧
      AllRefused others := by
  cases h with
  | unstarted hn => exact absurd hn hl
  | atWork _ _ _ hs ho => exact ⟨_, _, hs, by simp, ho⟩
  | broken _ _ hs ho =>
    refine ⟨_, _, hs, fun r hr => ?_, ho⟩
    cases hr
    exact id
  | returned _ _ hs hret ho =>
    refine ⟨_, _, hs, fun r hr => ?_, ho⟩
    cases hr
    exact hret.not_isRefusal

theorem Standing.isReturn_of_atWork (h : Standing e)
    (hwork : e.lifecycle = .running → e.phase ≠ .idle) {r : StartEnd}
    {others : List (Option StartEnd)} (hs : e.starts = some r :: others) : r.IsReturn := by
  cases h with
  | unstarted _ _ hs' => cases hs.symm.trans hs'
  | atWork _ _ _ hs' => cases hs.symm.trans hs'
  | broken hl hp => exact absurd hp (hwork hl)
  | returned _ _ hs' hret =>
    cases hs.symm.trans hs'
    exact hret

/-- Of all calls of start, the first one finds the engine new, and no other does. -/
theorem claimed_once {s : Setup ω ς} {w : ω} {σ : Schedule ω} {n : Nat}
    (hex : ∃ m < n, σ m = .start) :
    ∃! m, m < n ∧ σ m = .start ∧ ((fresh s w).after σ m).lifecycle = .notStarted := by
  obtain ⟨m, ⟨hm, hstart⟩, hfirst⟩ := exists_first hex
  refine ⟨m, ⟨hm, hstart, (notStarted_iff s w σ m).mpr ?_⟩, fun k hk => ?_⟩
  · intro k hk hs
    exact hfirst k hk ⟨hk.trans hm, hs⟩
  · obtain ⟨hkn, hs, hl⟩ := hk
    rcases Nat.lt_trichotomy k m with h | h | h
    · exact absurd ⟨hkn, hs⟩ (hfirst k h)
    · exact h
    · exact absurd hstart ((notStarted_iff s w σ k).mp hl m h)

/-- **An engine lives once.** Whoever calls start, requests a stop or lets the start at work go on,
in whatever order: the stage goes from new to running to shut down, one call claims the engine,
every other one is refused and changes nothing, and once the first one has returned the engine stays
shut down. -/
theorem livesOnce_after (s : Setup ω ς) (w : ω) (σ : Schedule ω) :
    LivesOnce σ fun n => (fresh s w).after σ n where
  -- All fields rest on `Standing`, which every move keeps, and on the rank of the stage, which
  -- never falls.
  forward n := (standing_after s w σ n).forward (move_follows _ _)
  once m n he hm hn := by
    rcases Nat.lt_trichotomy m n with h | h | h
    · exact absurd (congrArg Lifecycle.rank he) (rank_lt_of_step h hm).ne
    · exact h
    · exact absurd (congrArg Lifecycle.rank he) (rank_lt_of_step h hn).ne'
  claimed n hex := claimed_once hex
  claims n hstart hl := by
    obtain ⟨-, hs⟩ := (standing_after s w σ n).idle_of_notStarted hl
    have hmove : (fresh s w).after σ (n + 1) = ((fresh s w).after σ n).start := by
      rw [after, hstart, move]
    simp [hmove, start, hl, hs, tell]
  refused n hstart hl := by
    refine ⟨_, rfl, ?_, fun h => by rw [h]; rfl, fun h => by rw [h]; rfl⟩
    show ((fresh s w).after σ n).move (σ n) = _
    rw [hstart]
    exact start_refused hl
  record n hex := by
    refine (standing_after s w σ n).record fun hl => ?_
    obtain ⟨m, hm, hstart⟩ := hex
    exact (notStarted_iff s w σ n).mp hl m hm hstart
  final m n i r hmn h :=
    after_of_le (P := fun d => d.starts[i]? = some (some r))
      (fun _ _ _ _ hm h => hm.final h) hmn h
  stop n hstop := by
    refine ⟨((fresh s w).after σ n).requestStop.lines, ?_⟩
    show ((fresh s w).after σ n).move (σ n) = _
    rw [hstop]
    exact requestStop_eq _
  again m n hmn h := by
    have hn := stopRequested_after hmn h
    refine ⟨hn, fun hstop => ?_⟩
    show ((fresh s w).after σ n).move (σ n) = _
    rw [hstop]
    exact if_pos hn
  returned n r others hs hr := by
    obtain ⟨hret, hl⟩ := (standing_after s w σ n).shutdown_of_returned hs hr
    refine ⟨hret, fun m hnm => Lifecycle.rank_inj ?_⟩
    have hle := rank_mono s w σ hnm
    rw [hl] at hle
    exact Nat.le_antisymm (Lifecycle.rank_le _) hle
  unbroken n hi hd r others hs :=
    (standing_after s w σ n).isReturn_of_atWork (atWork_after hi hd) hs

end Engine

namespace Rehearsed

/-- Two more calls of start: one while the engine runs, and one after it has been shut down. -/
def crowd : Schedule Rehearsal := fun n => if n = 5 ∨ n = 45 then .start else schedule n

theorem livesOnce_rehearsed :
    let e := Engine.fresh setup world
    e.InitsHold crowd 46 ∧ e.DeadlinesFit crowd 46 ∧
      (e.after crowd 46).starts =
        [some .ok, some (.error (.alreadyStarted .running)),
          some (.error (.alreadyStarted .shutdown))] ∧
      ∀ m, 46 ≤ m → (e.after crowd m).lifecycle = .shutdown := by
  have hi : (Engine.fresh setup world).InitsHold crowd 46 := fun m hm _ _ =>
    (by decide +kernel : ∀ m < 46, ((Engine.fresh setup world).after crowd m).initCrashes = false)
      m hm
  have hd : (Engine.fresh setup world).DeadlinesFit crowd 46 := by
    unfold Engine.DeadlinesFit
    decide +kernel
  have hs : ((Engine.fresh setup world).after crowd 46).starts =
      [some .ok, some (.error (.alreadyStarted .running)),
        some (.error (.alreadyStarted .shutdown))] := by decide +kernel
  have hlife := Engine.livesOnce_after setup world crowd
  exact ⟨hi, hd, hs, (hlife.returned 46 _ _ hs (by simp)).2⟩

end Rehearsed

end TradingBot
