import TradingBot.Proofs.Assembly

/-!
# How a start puts its run together

**Runs.** From the moves: in every order of moves an engine performs the tasks of its plan in order
(`Engine.assembled_after`), what comes of the last one stays so (`Engine.stands_of_le`), and on a
fair schedule there is a last one (`Engine.assembling_ends`), because each strategy that is prepared
leaves fewer markets.

**Theorem (`Engine.assembles_after`).** Whatever the components reply, a start performs its plan up
to the first failure. It goes round its loop with what the tasks gave, or it ends the way the task
that failed says.
-/

namespace TradingBot

namespace Engine

open Assembly

variable {ω ς : Type} {e e' d : Engine ω ς} {ts : List (Task ω ς)} {hist evs : List Event}
  {seen : List (Effect ω ς)}

/-! ## A whole run -/

variable {s : Setup ω ς} {w : ω} {σ : Schedule ω} {n m : Nat}

theorem assembled_after (hpl : Plans s ts) (w : ω) (σ : Schedule ω) (n : Nat) :
    Assembled ts ((fresh s w).after σ n) ((fresh s w).history σ n)
      ((fresh s w).effects σ n) := by
  induction n with
  | zero => exact .unbegun (.inl rfl) rfl
  | succ n ih => exact ih.move (by rwa [setup_after]) (standing_after s w σ n) (σ n)

theorem Assembled.claimed (ha : Assembled ts e hist seen) (hs : Standing e) (hne : seen ≠ []) :
    e.lifecycle ≠ .notStarted := by
  cases ha with
  | unbegun => exact absurd rfl hne
  | settingUp _ _ _ _ _ hp => exact hs.claimed (by simp [hp])
  | wiring _ _ _ _ _ _ hp => exact hs.claimed (by simp [hp])
  | decided _ _ hclaimed => exact hclaimed

theorem Assembled.stands (ha : Assembled ts e hist seen) :
    (seen = [] ∧ hist = [] ∧ (e.lifecycle = .notStarted ∨ e.phase = .loading)) ∨
      ∃ es p, seen = .loaded e.setup.source.load :: es ∧ Performs ts es p ∧
        e.Stands hist es p := by
  cases ha with
  | unbegun hnew hh => exact .inl ⟨rfl, hh, hnew⟩
  | settingUp hl _ hts _ hb hp hh =>
    subst hts
    refine .inr ⟨_, .underWay, by rw [hl], .stops (.waits hb) (by simp), ?_, hh⟩
    simp [hp, Phase.Assembling]
  | wiring hl _ hts _ hdone hb hp hh =>
    subst hts
    refine .inr ⟨_, .underWay, by rw [hl], hdone.snoc (.waits hb) (by simp), ?_, hh⟩
    simp [hp, Phase.Assembling]
  | decided hperf _ _ hstands => exact .inr ⟨_, _, rfl, hperf, hstands⟩

theorem stands_of_le {p : Progress ω ς} {es : List (Effect ω ς)}
    (hl : ((fresh s w).after σ n).lifecycle ≠ .notStarted) (hp : p ≠ .underWay)
    (h : ((fresh s w).after σ n).Stands ((fresh s w).history σ n) es p) (hnm : n ≤ m) :
    (fresh s w).effects σ m = (fresh s w).effects σ n ∧
      ((fresh s w).after σ m).Stands ((fresh s w).history σ m) es p := by
  suffices hall : (fresh s w).effects σ m = (fresh s w).effects σ n ∧
      ((fresh s w).after σ m).Stands ((fresh s w).history σ m) es p ∧
      ((fresh s w).after σ m).lifecycle ≠ .notStarted from ⟨hall.1, hall.2.1⟩
  induction m, hnm using Nat.le_induction with
  | base => exact ⟨rfl, h, hl⟩
  | succ m _ ih =>
    obtain ⟨heff, hst, hlm⟩ := ih
    obtain ⟨hst', hnone⟩ := hst.move hp (standing_after s w σ m) hlm (σ m)
    refine ⟨by rw [effects, hnone, List.append_nil, heff], hst', fun hnew => hlm ?_⟩
    exact (notStarted_iff s w σ m).mpr fun k hk =>
      (notStarted_iff s w σ (m + 1)).mp hnew k (Nat.lt_succ_of_lt hk)

/-! ## The end of an assembly -/

/-- The engine prepares a strategy before fewer than so many others. -/
def WiresBefore (p : Phase ω ς) (k : Nat) : Prop :=
  ∃ c x ready current left q, p = .wiring c x ready current left q ∧ left.length < k

theorem Wires.goesOn {c : Config} {x : Exchange ω} {ready : List (Wired ω ς)}
    {left : List Config.Market} (hw : Wires d c x ready left evs e') :
    ¬ e'.phase.Assembling ∨ WiresBefore e'.phase left.length := by
  cases hw with
  | enters | unlisted | unknown => exact .inl id
  | inits => exact .inr ⟨_, _, _, _, _, _, rfl, Nat.lt_succ_self _⟩

theorem Step.of_loading (st : Step e evs e') (hp : e.phase = .loading) :
    ¬ e'.phase.Assembling ∨ ∃ c a q, e'.phase = .settingUp c a q := by
  cases st with
  | loadFails | adapterUnknown => exact .inl id
  | loads => exact .inr ⟨_, _, _, rfl⟩
  | waits hsus hp' =>
    rw [hp] at hp'
    cases hsus <;> cases hp'
  | setsUp hp' | strategyReady hp' | begins hp' | passes hp' | executes hp' | skips hp' =>
    cases hp.symm.trans hp'
  | _ => simp_all

theorem Step.of_settingUp {c : Config} {a : Adapter ω} {q : Program ω (Except Fault Unit)}
    {r : Except Fault Unit} (st : Step e evs e') (hp : e.phase = .settingUp c a q)
    (hend : (e.turn q).rest = .inl r) :
    ¬ e'.phase.Assembling ∨ WiresBefore e'.phase c.enabledMarkets.length := by
  cases st with
  | setUpFails | setUpCrashes => exact .inl id
  | setsUp hp' _ hw =>
    cases hp.symm.trans hp'
    exact hw.goesOn
  | waits hsus hp' ht =>
    rw [hp] at hp'
    cases hsus <;> cases hp'
    cases hend.symm.trans ht
  | strategyReady hp' | begins hp' | passes hp' | executes hp' | skips hp' =>
    cases hp.symm.trans hp'
  | _ => simp_all

theorem Step.of_wiring {c : Config} {x : Exchange ω} {ready : List (Wired ω ς)}
    {current : Wired ω ς} {left : List Config.Market}
    {q : Program ω (Except StrategyFault Unit × ς)} {r : Except StrategyFault Unit × ς}
    (st : Step e evs e') (hp : e.phase = .wiring c x ready current left q)
    (hend : (e.turn q).rest = .inl r) :
    ¬ e'.phase.Assembling ∨ WiresBefore e'.phase left.length := by
  cases st with
  | strategyFails | strategyCrashes => exact .inl id
  | strategyReady hp' _ hw =>
    cases hp.symm.trans hp'
    exact hw.goesOn
  | waits hsus hp' ht =>
    rw [hp] at hp'
    cases hsus <;> cases hp'
    cases hend.symm.trans ht
  | setsUp hp' | begins hp' | passes hp' | executes hp' | skips hp' =>
    cases hp.symm.trans hp'
  | _ => simp_all

/-- On a fair schedule, all strategies are prepared in the end, or one cannot be. -/
theorem wiring_ends (hf : (fresh s w).Fair σ) {k : Nat}
    (hp : WiresBefore ((fresh s w).after σ n).phase k) :
    ∃ m, n ≤ m ∧ ¬ ((fresh s w).after σ m).phase.Assembling := by
  induction k generalizing n with
  | zero =>
    obtain ⟨_, _, _, _, _, _, -, hlt⟩ := hp
    exact absurd hlt (Nat.not_lt_zero _)
  | succ k ih =>
    obtain ⟨c, x, ready, current, left, q, hp, hlt⟩ := hp
    have hl := (standing_after s w σ n).claimed (by simp [hp])
    obtain ⟨m, q', r, hnm, hturn, -, -, hpm, hend⟩ :=
      program_ends (.wiring c x ready current left) hf hl hp
    rcases (hturn.step (by simp [hpm])).of_wiring hpm hend with hdone | hmore
    · exact ⟨m + 1, by omega, hdone⟩
    · obtain ⟨_, _, _, _, _, _, hp', hlt'⟩ := hmore
      obtain ⟨m', hm', hdone⟩ := ih (n := m + 1) ⟨_, _, _, _, _, _, hp', by omega⟩
      exact ⟨m', by omega, hdone⟩

theorem settingUp_ends (hf : (fresh s w).Fair σ) {c : Config} {a : Adapter ω}
    {q : Program ω (Except Fault Unit)}
    (hp : ((fresh s w).after σ n).phase = .settingUp c a q) :
    ∃ m, n ≤ m ∧ ¬ ((fresh s w).after σ m).phase.Assembling := by
  have hl := (standing_after s w σ n).claimed (by simp [hp])
  obtain ⟨m, q', r, hnm, hturn, -, -, hpm, hend⟩ := program_ends (.settingUp c a) hf hl hp
  rcases (hturn.step (by simp [hpm])).of_settingUp hpm hend with hdone | hmore
  · exact ⟨m + 1, by omega, hdone⟩
  · obtain ⟨m', hm', hdone⟩ := wiring_ends hf hmore
    exact ⟨m', by omega, hdone⟩

theorem loading_ends (hf : (fresh s w).Fair σ) (hp : ((fresh s w).after σ n).phase = .loading) :
    ∃ m, n ≤ m ∧ ¬ ((fresh s w).after σ m).phase.Assembling := by
  obtain ⟨m, hnm, -, hw, st, -⟩ := next_move_after (n := n) hf (by simp [hp])
  rcases st.of_loading (hw.phase.trans hp) with hdone | ⟨c, a, q, hmore⟩
  · exact ⟨m + 1, by omega, hdone⟩
  · obtain ⟨m', hm', hdone⟩ := settingUp_ends hf hmore
    exact ⟨m', by omega, hdone⟩

/-- On a fair schedule, the run is put together in the end, or cannot be. -/
theorem assembling_ends (hf : (fresh s w).Fair σ) (n : Nat) :
    ∃ m, n ≤ m ∧ ¬ ((fresh s w).after σ m).phase.Assembling := by
  by_cases ha : ((fresh s w).after σ n).phase.Assembling
  · cases hp : ((fresh s w).after σ n).phase with
    | loading => exact loading_ends hf hp
    | settingUp => exact settingUp_ends hf hp
    | wiring => exact wiring_ends hf ⟨_, _, _, _, _, _, hp, Nat.lt_succ_self _⟩
    | _ =>
      rw [hp] at ha
      exact ha.elim
  · exact ⟨n, Nat.le_refl n, ha⟩

theorem FailsWith.ends {r : StartEnd} (h : ((fresh s w).after σ n).FailsWith r)
    (hf : (fresh s w).Fair σ) : ∃ m, n ≤ m ∧ ((fresh s w).after σ m).phase = .idle := by
  cases h with
  | returned hp | brokenOff hp => exact ⟨n, Nat.le_refl n, hp⟩
  | leaving hp =>
    obtain ⟨m, hnm, -, hw, st, -⟩ := next_move_after (n := n) hf (by simp [hp])
    obtain ⟨-, lines, he⟩ := st.of_leaving (hw.phase.trans hp)
    exact ⟨m + 1, by omega, by rw [he]⟩

/-! ## The whole -/

/-- How an engine puts its run together, the tasks being these. -/
structure Assembles (ts : List (Task ω ς)) (s : Setup ω ς) (w : ω) (σ : Schedule ω) : Prop where
  /-- At every moment, nothing was done yet, or the configuration was loaded and tasks were
  performed, one after another and up to the first that waits or has failed. While they are
  performed, the calls of their initialisations are all that is recorded. -/
  inOrder : ∀ n, let e := (fresh s w).after σ n
    ((fresh s w).effects σ n = [] ∧ (fresh s w).history σ n = [] ∧
      (e.lifecycle = .notStarted ∨ e.phase = .loading)) ∨
    ∃ es p, (fresh s w).effects σ n = .loaded s.source.load :: es ∧ Performs ts es p ∧
      e.Stands ((fresh s w).history σ n) es p
  /-- Once the tasks have all been performed, or one has failed, it stays so: nothing more is put
  together, and a start that failed does nothing else. -/
  final : ∀ n m es p, n ≤ m → (fresh s w).effects σ n = .loaded s.source.load :: es →
    p ≠ .underWay → ((fresh s w).after σ n).Stands ((fresh s w).history σ n) es p →
    (fresh s w).effects σ m = (fresh s w).effects σ n ∧
      ((fresh s w).after σ m).Stands ((fresh s w).history σ m) es p
  /-- The start that claimed the engine returns an error only because a task has failed with it. -/
  errors : ∀ n error,
    ((fresh s w).after σ n).starts.head? = some (some (.error error)) →
    ∃ es, (fresh s w).effects σ n = .loaded s.source.load :: es ∧
      Performs ts es (.failed (.error error))
  /-- No start ever ends because a market names a strategy that is not listed. -/
  listed : ∀ n marketId strategyId,
    some (.error (.unlistedStrategy marketId strategyId)) ∉ ((fresh s w).after σ n).starts
  /-- On a fair schedule, a start performs all tasks, or ends because one has failed. -/
  ends : (fresh s w).Fair σ → (∃ k, σ k = .start) →
    ∃ n es p, (fresh s w).effects σ n = .loaded s.source.load :: es ∧ Performs ts es p ∧
      p ≠ .underWay ∧ ((fresh s w).after σ n).Stands ((fresh s w).history σ n) es p ∧
      ∀ r, p = .failed r → ((fresh s w).after σ n).phase = .idle

/-- A start that returned an error did so because a task has failed with it. -/
theorem Assembled.of_error {error : EngineError} (ha : Assembled ts e hist seen)
    (hs : Standing e) (hst : e.starts.head? = some (some (.error error))) :
    ∃ es, seen = .loaded e.setup.source.load :: es ∧
      Performs ts es (.failed (.error error)) := by
  cases hs with
  | unstarted _ _ hst' | atWork _ _ _ hst' | broken _ _ hst' => simp [hst'] at hst
  | returned hl hp hst' =>
    rcases ha.stands with ⟨-, -, hnew⟩ | ⟨es, p, rfl, hperf, hstands⟩
    · rcases hnew with h | h
      · cases hl.symm.trans h
      · cases hp.symm.trans h
    · refine ⟨es, rfl, ?_⟩
      cases p with
      | underWay =>
        have hasm := hstands.1
        rw [hp] at hasm
        exact hasm.elim
      | ready ws => exact absurd hst (hstands.2.1 error)
      | failed r =>
        cases hstands.1 with
        | leaving hp' => cases hp.symm.trans hp'
        | returned _ _ hst'' =>
          rw [hst'', List.head?_cons, Option.some.injEq, Option.some.injEq] at hst
          exact hst ▸ hperf
        | brokenOff _ hl' => cases hl.symm.trans hl'

/-- A call of start other than the one that claimed the engine was refused for that reason. -/
theorem Standing.head?_of_mem (hs : Standing e) {error : EngineError}
    (hm : some (.error error) ∈ e.starts) (hn : ∀ l, error ≠ .alreadyStarted l) :
    e.starts.head? = some (some (.error error)) := by
  have hothers {call : Option StartEnd} {others : List (Option StartEnd)}
      (hst : e.starts = call :: others) (ho : AllRefused others) :
      e.starts.head? = some (some (.error error)) := by
    rw [hst] at hm ⊢
    rcases List.mem_cons.mp hm with rfl | hm
    · rfl
    · obtain ⟨r, he, hr⟩ := ho _ hm
      cases he
      cases error with
      | alreadyStarted l => exact absurd rfl (hn l)
      | _ => exact hr.elim
  cases hs with
  | unstarted _ _ hst => simp [hst] at hm
  | atWork _ _ _ hst ho | broken _ _ hst ho | returned _ _ hst _ ho => exact hothers hst ho

/-- **How a run is put together.** Whatever the configuration, the registry and the replies of the
components: there is one plan, with a task for the adapter and one for each enabled market in order,
each of which has exactly one strategy to name. An engine performs these tasks in order, each once,
and stops at the first that fails. When all went well, it works with the strategies that were wired,
one for each enabled market; when one failed, its start ends the way the task says, and it neither
fetches balances nor executes a strategy nor sends an alert. -/
theorem assembles_after (s : Setup ω ς) (w : ω) (σ : Schedule ω) :
    ∃ ts, Plans s ts ∧ Assembles ts s w σ := by
  obtain ⟨ts, hpl⟩ := exists_plan s
  have hasm := assembled_after hpl w σ
  have hst := standing_after s w σ
  have hsrc : ∀ n, ((fresh s w).after σ n).setup.source = s.source := fun n => by
    rw [setup_after]
    rfl
  have herr : ∀ n error, ((fresh s w).after σ n).starts.head? = some (some (.error error)) →
      ∃ es, (fresh s w).effects σ n = .loaded s.source.load :: es ∧
        Performs ts es (.failed (.error error)) := fun n error h => by
    rw [← hsrc n]
    exact (hasm n).of_error (hst n) h
  refine ⟨ts, hpl, fun n => ?_, fun n m es p hnm heff hne h => ?_, herr,
    fun n marketId strategyId hm => ?_, fun hf ⟨k, hk⟩ => ?_⟩
  · rw [← hsrc n]
    exact (hasm n).stands
  · exact stands_of_le ((hasm n).claimed (hst n) (by simp [heff])) hne h hnm
  · obtain ⟨es, -, hperf⟩ := herr n _ ((hst n).head?_of_mem hm (by simp))
    exact Performs.listed (hpl.listed marketId strategyId) hperf
  -- On a fair schedule the assembly is decided at some time, and if it has failed, the start then
  -- comes to its end.
  · obtain ⟨n, hkn, hover⟩ := assembling_ends hf (k + 1)
    have hclaimed : ((fresh s w).after σ n).lifecycle ≠ .notStarted := fun hl =>
      (notStarted_iff s w σ n).mp hl k (by omega) hk
    rcases (hasm n).stands with ⟨-, -, hnew⟩ | ⟨es, p, heff, hperf, hstands⟩
    · rw [hnew.resolve_left hclaimed] at hover
      exact absurd trivial hover
    · have hne : p ≠ .underWay := by
        rintro rfl
        exact hover hstands.1
      rw [hsrc n] at heff
      cases p with
      | underWay => exact absurd rfl hne
      | ready ws => exact ⟨n, es, _, heff, hperf, hne, hstands, by simp⟩
      | failed r =>
        obtain ⟨m, hnm, hidle⟩ := hstands.1.ends hf
        obtain ⟨heff', hstands'⟩ := stands_of_le hclaimed hne hstands hnm
        exact ⟨m, es, _, heff'.trans heff, hperf, hne, hstands', fun _ _ => hidle⟩

end Engine

namespace Rehearsed

/-- The rehearsed bot with two more markets: one is disabled, and the strategy of the other is of a
class that is not registered. -/
def halfKnown : Config :=
  { config with
    markets := config.markets ++
      [{ id := "ethusd", name := "ETH/USD", base := "ETH", counter := "USD", strategyId := "lost" },
        { id := "ltcusd", name := "LTC/USD", base := "LTC", counter := "USD", enabled := true
          strategyId := "other" }]
    strategies := { id := "other", name := "Other", className := "nowhere" } :: config.strategies }

theorem assembles_rehearsed :
    let s := { setup with source := halfKnown.toSource }
    let e := (Engine.fresh s world).after schedule 40
    e.actions.toList = [.initExchange, .initStrategy "btcusd" "watch"] ∧
      e.starts = [some (.error (.unknownStrategy "nowhere"))] ∧ e.lifecycle = .shutdown ∧
      ∃ ts es, Assembly.Plans s ts ∧ Engine.Assembles ts s world schedule ∧
        Assembly.Performs ts es (.failed (.error (.unknownStrategy "nowhere"))) := by
  refine ⟨by decide +kernel, by decide +kernel, by decide +kernel, ?_⟩
  obtain ⟨ts, hpl, ha⟩ :=
    Engine.assembles_after { setup with source := halfKnown.toSource } world schedule
  obtain ⟨es, -, hp⟩ := ha.errors 40 (.unknownStrategy "nowhere") (by decide +kernel)
  exact ⟨ts, es, hpl, ha, hp⟩

end Rehearsed

end TradingBot
