import TradingBot.CommandLine.Session
import TradingBot.Proofs.StartUp

/-!
# A check foretells a run

A check looks at all that a configuration names. A run looks at one thing after another, prepares
what it finds, and stops at the first that is missing. Both find the same strategies: in a valid
configuration each enabled market names exactly one (`Assembly.Named`).

**What is missing** (`Assembly.unregistered`). The strategies of the enabled markets whose classes
are not registered, in the order of the markets. The plan of a run refuses these, or the adapter
alone if it is not registered (`Assembly.Plans.refusals_of_adapter`,
`Assembly.Plans.refusals_of_no_adapter`). The report lists them, and then the adapter
(`CommandLine.Report.missing_eq`).

**Starts that are refused something** (`Engine.refused_after`, `Engine.refused_ends`). They show
nothing but initialisations, at every moment, and on a fair schedule they end, but not well. The
error can only be the first that the plan comes to (`Engine.head?_refusals_of_mem`).

**Theorem (`CommandLine.commands_agree`).** Over a source that stays as it is, a check and a run
agree.
-/

namespace TradingBot

variable {ω ς : Type}

/-! ## What is missing -/

namespace Assembly

variable {c : Config} {reg : Registry ω ς} {named : List Config.Strategy}
  {s : Engine.Setup ω ς} {ts : List (Task ω ς)}

/-- The strategies that the enabled markets name, one for each, in order. -/
def Named (c : Config) (named : List Config.Strategy) : Prop :=
  List.Forall₂ (Names c) c.enabledMarkets named

/-- The strategies among these whose classes are not registered. -/
def unregistered (reg : Registry ω ς) (named : List Config.Strategy) : List Config.Strategy :=
  named.filter fun cs => (reg.strategy? cs.className).isNone

theorem exists_named (hv : c.Valid) : ∃ named, Named c named := by
  refine exists_forall₂ fun m hm => ?_
  obtain ⟨cs, -, hmem, hid, hu⟩ := hv.exists_strategy hm
  exact ⟨cs, hmem, hid, hu⟩

theorem unregistered_cons_of_some {cs : Config.Strategy} {strategy : Strategy ω ς}
    (h : reg.strategy? cs.className = some strategy) :
    unregistered reg (cs :: named) = unregistered reg named := by
  rw [unregistered, List.filter_cons_of_neg (by simp [h]), unregistered]

theorem unregistered_cons_of_none {cs : Config.Strategy} (h : reg.strategy? cs.className = none) :
    unregistered reg (cs :: named) = cs :: unregistered reg named := by
  rw [unregistered, List.filter_cons_of_pos (by simp [h]), unregistered]

/-- The tasks of markets refuse the strategies that are not registered, in order. -/
theorem refusals_of_serves {x : Exchange ω} {ms : List Config.Market}
    (hn : List.Forall₂ (Names c) ms named) (hs : List.Forall₂ (Serves c reg x) ms ts) :
    refusals ts = (unregistered reg named).map fun cs => .unknownStrategy cs.className := by
  induction hs generalizing named with
  | nil =>
    cases hn
    rfl
  | @cons m t ms ts ht _ ih =>
    cases hn with
    | @cons _ cs _ named hm hn =>
      rw [refusals, List.filterMap_cons]
      cases ht with
      | prepares hm' hr =>
        rw [hm.unique _ hm'.listed hm'.id] at hr
        rw [unregistered_cons_of_some hr]
        exact ih hn
      | refuses hm' hr =>
        rw [hm.unique _ hm'.listed hm'.id] at hr ⊢
        rw [unregistered_cons_of_none hr]
        exact congrArg _ (ih hn)

theorem Plans.refusals_of_adapter {a : Adapter ω} (h : Plans s ts)
    (hl : s.source.load = .ok c) (ha : s.registry.adapter? c.exchange.adapter = some a)
    (hn : Named c named) :
    refusals ts =
      (unregistered s.registry named).map fun cs => .unknownStrategy cs.className := by
  cases h with
  | unloadable hl' => cases hl.symm.trans hl'
  | adapterless hl' ha' =>
    cases hl.symm.trans hl'
    cases ha.symm.trans ha'
  | full hl' ha' hs =>
    cases hl.symm.trans hl'
    have htasks := refusals_of_serves hn hs
    rw [refusals, List.filterMap_cons]
    exact htasks

theorem Plans.refusals_of_no_adapter (h : Plans s ts) (hl : s.source.load = .ok c)
    (ha : s.registry.adapter? c.exchange.adapter = none) :
    refusals ts = [.unknownAdapter c.exchange.adapter] := by
  cases h with
  | unloadable hl' => cases hl.symm.trans hl'
  | adapterless hl' =>
    cases hl.symm.trans hl'
    rfl
  | full hl' ha' =>
    cases hl.symm.trans hl'
    cases ha.symm.trans ha'

end Assembly

/-! ## What is listed -/

namespace CommandLine.Report

open Assembly

variable {c : Config} {reg : Registry ω ς} {named : List Config.Strategy}
  {s : Engine.Setup ω ς} {ts : List (Task ω ς)}

def strategyEntry (cs : Config.Strategy) : String := s!"strategy '{cs.id}' ({cs.className})"

def adapterEntry (id : String) : String := s!"exchange adapter '{id}'"

/-- One entry for each strategy here whose class is not registered, in order, and then one for the
adapter if it is not registered. -/
def entries (reg : Registry ω ς) (c : Config) (named : List Config.Strategy) : List String :=
  (unregistered reg named).map strategyEntry ++
    if (reg.adapter? c.exchange.adapter).isSome then [] else [adapterEntry c.exchange.adapter]

theorem filterMap_missingStrategy? {ms : List Config.Market}
    (hn : List.Forall₂ (Names c) ms named) :
    ms.filterMap (missingStrategy? reg c) = (unregistered reg named).map strategyEntry := by
  induction hn with
  | nil => rfl
  | @cons m cs ms named hm _ ih =>
    rw [List.filterMap_cons, missingStrategy?, hm.strategy?]
    cases hr : reg.strategy? cs.className with
    | none =>
      rw [unregistered_cons_of_none hr, List.map_cons, ← ih]
      simp [hr, strategyEntry]
    | some =>
      rw [unregistered_cons_of_some hr, ← ih]
      simp [hr]

/-- The report lists the strategies of the enabled markets. -/
theorem missing_eq (hn : Named c named) : missing reg c = entries reg c named := by
  rw [missing, filterMap_missingStrategy? hn]
  rfl

theorem error?_eq (reg : Registry ω ς) (c : Config) :
    error? reg c = if missing reg c = [] then none
      else some ("unregistered components: " ++ ", ".intercalate (missing reg c)) := by
  unfold error?
  split
  · next h => rw [if_pos h]
  · next h => rw [if_neg h]

/-- What is listed first of its kind: the adapter, or else the first strategy. -/
inductive NamesFirst (reg : Registry ω ς) (c : Config) (named : List Config.Strategy) :
    EngineError → Prop
  | adapter : reg.adapter? c.exchange.adapter = none →
      adapterEntry c.exchange.adapter ∈ missing reg c →
      NamesFirst reg c named (.unknownAdapter c.exchange.adapter)
  | strategy {cs : Config.Strategy} {others : List Config.Strategy} :
      unregistered reg named = cs :: others → strategyEntry cs ∈ missing reg c →
      NamesFirst reg c named (.unknownStrategy cs.className)

theorem namesFirst {error : EngineError} (hpl : Plans s ts) (hl : s.source.load = .ok c)
    (hn : Named c named) (he : (refusals ts).head? = some error) :
    NamesFirst s.registry c named error := by
  have hlists : missing s.registry c = entries s.registry c named := missing_eq hn
  cases ha : s.registry.adapter? c.exchange.adapter with
  | none =>
    rw [hpl.refusals_of_no_adapter hl ha] at he
    cases he
    exact .adapter ha (by simp [hlists, entries, ha])
  | some a =>
    rw [hpl.refusals_of_adapter hl ha hn] at he
    cases hu : unregistered s.registry named with
    | nil => simp [hu] at he
    | cons cs others =>
      rw [hu] at he
      cases he
      exact .strategy hu (by simp [hlists, entries, hu])

theorem missing_eq_nil_iff (hpl : Plans s ts) (hl : s.source.load = .ok c) (hn : Named c named) :
    missing s.registry c = [] ↔ refusals ts = [] := by
  rw [missing_eq hn]
  cases ha : s.registry.adapter? c.exchange.adapter with
  | none => simp [entries, ha, hpl.refusals_of_no_adapter hl ha]
  | some => simp [entries, ha, hpl.refusals_of_adapter hl ha hn]

end CommandLine.Report

/-! ## Starts that are refused something -/

namespace Engine

open Assembly

variable {c : Config} {s : Setup ω ς} {w : ω} {σ : Schedule ω} {n : Nat} {ts : List (Task ω ς)}
  {e : Engine ω ς}

/-- An error that comes from a plan is returned only if it is the first one there. -/
theorem head?_refusals_of_mem {error : EngineError} (hpl : Plans s ts)
    (hm : some (.error error) ∈ ((fresh s w).after σ n).starts) (he : error.IsForeseen) :
    (refusals ts).head? = some error := by
  have hs := standing_after s w σ n
  have hfirst := hs.head?_of_mem hm fun l hl => by
    subst hl
    exact he
  obtain ⟨es, -, hperf⟩ := (assembled_after hpl w σ n).of_error hs hfirst
  exact hperf.head?_refusals he

/-- If something is refused, a run is still being put together or has failed, and its events are
initialisations. -/
theorem refused_after (hpl : Plans s ts) (hr : refusals ts ≠ []) (w : ω) (σ : Schedule ω)
    (n : Nat) :
    (∀ ev ∈ (fresh s w).history σ n, ev.IsInit) ∧
      (((fresh s w).after σ n).lifecycle = .notStarted ∨
        ((fresh s w).after σ n).phase.Assembling ∨ ∃ r, ((fresh s w).after σ n).FailsWith r) := by
  rcases (assembled_after hpl w σ n).stands with ⟨-, hh, hnew⟩ | ⟨es, p, -, hperf, hst⟩
  · rw [hh]
    refine ⟨by simp, ?_⟩
    rcases hnew with hl | hp
    · exact .inl hl
    · exact .inr (.inl (hp ▸ trivial))
  · cases p with
    | ready ws => exact absurd hperf.refusals_of_ready hr
    | underWay =>
      obtain ⟨hasm, hh⟩ := hst
      rw [hh]
      exact ⟨isInit_callsOf es, .inr (.inl hasm)⟩
    | failed r =>
      obtain ⟨hf, hh⟩ := hst
      rw [hh]
      exact ⟨isInit_callsOf es, .inr (.inr ⟨r, hf⟩)⟩

theorem refused_not_ok (hpl : Plans s ts) (hr : refusals ts ≠ []) (w : ω) (σ : Schedule ω)
    (n : Nat) : ((fresh s w).after σ n).starts.head? ≠ some (some .ok) := by
  have hs := standing_after s w σ n
  by_cases hi : ((fresh s w).after σ n).phase = .idle
  · rcases (refused_after hpl hr w σ n).2 with hl | hasm | ⟨r, hf⟩
    · simp [(hs.idle_of_notStarted hl).2]
    · rw [hi] at hasm
      exact hasm.elim
    · obtain ⟨hne, hst⟩ := hf.head?_starts hi
      rw [hst]
      simpa using hne
  · simp [hs.head?_of_busy hi]

/-- If something is refused, a start ends on a fair schedule, and not well. -/
theorem refused_ends (hpl : Plans s ts) (hr : refusals ts ≠ []) (hf : (fresh s w).Fair σ)
    (hstart : ∃ k, σ k = .start) :
    ∃ n, ∀ m, n ≤ m →
      ∃ r, r ≠ .ok ∧ ((fresh s w).after σ m).starts.head? = some (some r) := by
  obtain ⟨k, hk⟩ := hstart
  obtain ⟨n, hkn, hover⟩ := assembling_ends hf (k + 1)
  have hclaimed (m : Nat) (hm : n ≤ m) : ((fresh s w).after σ m).lifecycle ≠ .notStarted :=
    fun hl => (notStarted_iff s w σ m).mp hl k (by omega) hk
  have hfails (m : Nat) (hm : n ≤ m) (hp : ¬ ((fresh s w).after σ m).phase.Assembling) :
      ∃ r, ((fresh s w).after σ m).FailsWith r :=
    ((refused_after hpl hr w σ m).2.resolve_left (hclaimed m hm)).resolve_left hp
  obtain ⟨r, hr⟩ := hfails n (Nat.le_refl n) hover
  obtain ⟨n', hn', hidle⟩ := hr.ends hf
  refine ⟨n', fun m hm => ?_⟩
  have hidle' := (ended_after hidle (hclaimed n' hn') hm).1.phase.trans hidle
  obtain ⟨r', hr'⟩ := hfails m (by omega) (by simp [hidle', Phase.Assembling])
  exact ⟨r', hr'.head?_starts hidle'⟩

end Engine

/-! ## Both commands -/

namespace CommandLine

open Assembly

variable {o : Options} {source : Config.Source} {link : Http.Link} {epoch : Timestamp}
  {c : Config} {named : List Config.Strategy}

namespace Session

def after (s : Session) (σ : Schedule Paper.World) (n : Nat) : Session :=
  { s with engine := s.engine.after σ n }

theorem code_of_end? {s : Session} {out : Outcome} (h : s.end? = some out)
    (hn : s.engine.starts.head? ≠ some (some .ok)) : out.code = 1 := by
  unfold end? at h
  split at h
  · next result hst =>
    match result with
    | .ok => exact absurd (by rw [hst]; rfl) hn
    | .error _ | .crash (.text _) | .crash .unreadable =>
      cases h
      rfl
  · cases h

theorem exists_end? {s : Session} {r : StartEnd} (hst : s.engine.starts = [some r]) :
    ∃ out, s.end? = some out := by
  unfold end?
  rw [hst]
  match r with
  | .ok | .error _ | .crash (.text _) | .crash .unreadable => exact ⟨_, rfl⟩

/-- No run of the session fails because something cannot be loaded or is not registered. -/
def Untroubled (s : Session) : Prop :=
  ∀ σ n error, some (.error error) ∈ (s.engine.after σ n).starts → ¬ error.IsForeseen

/-- All runs of the session fail before their first cycle. -/
structure Fails (c : Config) (named : List Config.Strategy) (s : Session) : Prop where
  /-- Only initialisations are ever shown, and no cycle is completed. -/
  beforeCycles : ∀ σ n, (∀ ev ∈ s.engine.history σ n, ev.IsInit) ∧ (s.engine.after σ n).cycles = 0
  /-- If something is not registered that an error names, it is listed. -/
  names : ∀ σ n error, some (.error error) ∈ (s.engine.after σ n).starts → error.IsForeseen →
    Report.NamesFirst registry c named error
  /-- A session that has ended leaves code 1. -/
  code : ∀ σ n out, (s.after σ n).end? = some out → out.code = 1
  /-- If nobody else starts its engine, it ends on a fair schedule. -/
  ends : ∀ σ, s.engine.Fair σ → (∀ n, σ n ≠ .start) →
    ∃ n, ∀ m, n ≤ m → ∃ out, (s.after σ m).end? = some out

end Session

theorem exists_session (o : Options) (link : Http.Link) (epoch : Timestamp)
    (hl : source.load = .ok c) :
    ∃ s setup, run o source link epoch = .session s ∧ setup.source = source ∧
      setup.registry = registry ∧ s.engine = (Engine.fresh setup { link }).start := by
  unfold run
  rw [hl]
  exact ⟨_, _, rfl, rfl, rfl, rfl⟩

theorem check_of_load (o : Options) (hl : source.load = .ok c) :
    (check o source).code = (if Report.missing registry c = [] then 0 else 1) ∧
      (Report.missing registry c ≠ [] → (check o source).errors =
        errorText ("unregistered components: " ++ ", ".intercalate (Report.missing registry c))
          []) := by
  unfold check
  rw [hl]
  simp only [Report.error?_eq]
  by_cases h : Report.missing registry c = []
  · simp [h]
  · simp [h]

theorem code_check_of_error (o : Options) {e : Config.Error} (hl : source.load = .error e) :
    (check o source).code = 1 := by
  unfold check
  rw [hl]
  rfl

/-- How a check and a run go over the same source. -/
structure Agree (o : Options) (source : Config.Source) (link : Http.Link) (epoch : Timestamp) :
    Prop where
  /-- If the source cannot be loaded, both end with code 1 and with the same chain of errors. -/
  unloadable : ∀ e, source.load = .error e → ∃ out, run o source link epoch = .ended out ∧
    out.code = 1 ∧ (check o source).code = 1 ∧ (check o source).errors = out.errors ∧
    out.errors = errorText ("invalid configuration in " ++ o.directory) (e.message :: e.causes)
  /-- If it can, the check lists each strategy of an enabled market and the adapter that is not
  registered, and ends well if there is none. -/
  lists : ∀ c, source.load = .ok c → ∃ named, Named c named ∧
    Report.missing registry c = Report.entries registry c named ∧
    (check o source).code = (if Report.missing registry c = [] then 0 else 1) ∧
    (Report.missing registry c ≠ [] → (check o source).errors =
      errorText ("unregistered components: " ++ ", ".intercalate (Report.missing registry c)) [])
  /-- If the check ends well, no run fails because something is missing. -/
  passes : (check o source).code = 0 →
    ∃ s, run o source link epoch = .session s ∧ s.Untroubled
  /-- If it lists something, all runs fail, and never because of something else that is missing. -/
  fails : ∀ c named, source.load = .ok c → Named c named → (check o source).code ≠ 0 →
    ∃ s, run o source link epoch = .session s ∧ s.Fails c named

theorem Session.fails_of_refusals {s : Session} {setup : Engine.Setup Paper.World MarketWatch}
    {w : Paper.World} {ts : List (Task Paper.World MarketWatch)}
    (he : s.engine = (Engine.fresh setup w).start) (hpl : Plans setup ts)
    (hreg : setup.registry = registry) (hl : setup.source.load = .ok c) (hn : Named c named)
    (hr : refusals ts ≠ []) : s.Fails c named := by
  have hafter (σ : Schedule Paper.World) (n : Nat) :
      s.engine.after σ n = (Engine.fresh setup w).after (σ.cons .start) (n + 1) := by
    rw [he, Engine.after_cons]
    rfl
  have hhist (σ : Schedule Paper.World) (n : Nat) :
      s.engine.history σ n = (Engine.fresh setup w).history (σ.cons .start) (n + 1) := by
    rw [he, Engine.history_cons]
    rfl
  -- A session has started its engine already, so it is one move ahead of a fresh one.
  refine ⟨fun σ n => ?_, fun σ n error hm hfor => ?_, fun σ n out h => ?_, fun σ hf hσ => ?_⟩
  · have hinit := (Engine.refused_after hpl hr w (σ.cons .start) (n + 1)).1
    rw [hhist, hafter]
    exact ⟨hinit, (Engine.told_after hl w _ _).fitting.traced.count_eq_zero hinit⟩
  · rw [hafter] at hm
    rw [← hreg]
    exact Report.namesFirst hpl hl hn (Engine.head?_refusals_of_mem hpl hm hfor)
  · refine code_of_end? h ?_
    rw [after, hafter]
    exact Engine.refused_not_ok hpl hr w _ _
  · have hlen (n : Nat) : (s.engine.after σ n).starts.length = 1 := by
      rw [Engine.length_starts_after _ hσ, he]
      rfl
    rw [he] at hf
    have hfair : (Engine.fresh setup w).Fair (σ.cons .start) := .cons hf
    obtain ⟨n, hn⟩ := Engine.refused_ends hpl hr hfair ⟨0, rfl⟩
    refine ⟨n, fun m hm => ?_⟩
    obtain ⟨r, -, hst⟩ := hn (m + 1) (by omega)
    rw [← hafter] at hst
    obtain ⟨call, hcall⟩ := List.length_eq_one_iff.mp (hlen m)
    rw [hcall, List.head?_cons, Option.some.injEq] at hst
    subst hst
    exact exists_end? hcall

/-- **A check foretells a run.** Whatever the source, be it a directory of files or another, as long
as it does not change, and whatever the network and the exchange do: if the source cannot be loaded,
both commands end with the same errors. If the check ends well, a run fails neither because of the
configuration nor because something is not registered. If the check lists what is not registered, a
run fails before its first cycle, and if it names something that is not registered, the check has
listed it. -/
theorem commands_agree (o : Options) (source : Config.Source) (link : Http.Link)
    (epoch : Timestamp) : Agree o source link epoch := by
  refine ⟨fun e hl => ?_, fun c hl => ?_, fun hcode => ?_, fun c named hl hn hcode => ?_⟩
  · unfold run check
    rw [hl]
    exact ⟨_, rfl, rfl, rfl, rfl, rfl⟩
  · obtain ⟨named, hn⟩ := exists_named (Config.Source.valid_of_load hl)
    obtain ⟨hcode, herrors⟩ := check_of_load o hl
    exact ⟨named, hn, Report.missing_eq hn, hcode, herrors⟩
  · cases hl : source.load with
    | error e => simp [code_check_of_error o hl] at hcode
    | ok c =>
      have hnone : Report.missing registry c = [] := by
        by_contra h
        rw [(check_of_load o hl).1, if_neg h] at hcode
        cases hcode
      obtain ⟨named, hn⟩ := exists_named (Config.Source.valid_of_load hl)
      obtain ⟨s, setup, hrun, rfl, hreg, he⟩ := exists_session o link epoch hl
      obtain ⟨ts, hpl⟩ := exists_plan setup
      rw [← hreg, Report.missing_eq_nil_iff hpl hl hn] at hnone
      refine ⟨s, hrun, fun σ n error hm hfor => ?_⟩
      rw [he, ← Engine.move, ← Engine.after_cons] at hm
      have hfirst := Engine.head?_refusals_of_mem hpl hm hfor
      simp [hnone] at hfirst
  · obtain ⟨s, setup, hrun, rfl, hreg, he⟩ := exists_session o link epoch hl
    obtain ⟨ts, hpl⟩ := exists_plan setup
    refine ⟨s, hrun, Session.fails_of_refusals he hpl hreg hl hn fun hnone => hcode ?_⟩
    rw [← Report.missing_eq_nil_iff hpl hl hn, hreg] at hnone
    rw [(check_of_load o hl).1, if_pos hnone]

end CommandLine

namespace Rehearsed

open CommandLine

/-- A bot on the command line. The strategy that two of its markets share is of a class that is not
registered, and a market that is disabled names a strategy that is not even listed. -/
def astray : Config where
  engine := config.engine
  exchange := { name := "Paper", adapter := Registry.paperId }
  markets := config.markets ++
    [{ id := "ethusd", name := "ETH/USD", base := "ETH", counter := "USD", strategyId := "lost" },
      { id := "ltcusd", name := "LTC/USD", base := "LTC", counter := "USD", enabled := true
        strategyId := "other" },
      { id := "ltcbtc", name := "LTC/BTC", base := "LTC", counter := "BTC", enabled := true
        strategyId := "other" }]
  strategies :=
    [{ id := "other", name := "Other", className := "nowhere" },
      { id := "watch", name := "Watch", className := Registry.marketWatchId }]

/-- The same bot without the markets that cannot be traded on. -/
def onCourse : Config := { astray with markets := config.markets }

def quietly : Options := { directory := "config", level := .error, command := .run }

def midnight : Timestamp := { seconds := 0, nanos := 0 }

theorem commands_rehearsed :
    (check quietly astray.toSource).errors =
        "Error: unregistered components: strategy 'other' (nowhere), strategy 'other' (nowhere)\n" ∧
      (outcome? 1000 (run quietly astray.toSource {} midnight)).map (·.errors) =
        some "Error: no trading strategy registered as 'nowhere'\n" ∧
      (∃ s, run quietly astray.toSource {} midnight = .session s ∧
        s.engine.Fair (fun _ => .work) ∧
        ∃ n out, (s.after (fun _ => .work) n).end? = some out ∧ out.code = 1) ∧
      (check quietly onCourse.toSource).code = 0 ∧
      ∃ s, run quietly onCourse.toSource {} midnight = .session s ∧ s.Untroubled := by
  have hl : astray.toSource.load = .ok astray := by decide +kernel
  have hcode : (check quietly astray.toSource).code ≠ 0 := by decide +kernel
  have hcode' : (check quietly onCourse.toSource).code = 0 := by decide +kernel
  have hagree := commands_agree quietly astray.toSource {} midnight
  obtain ⟨named, hn, -⟩ := hagree.lists astray hl
  obtain ⟨s, hrun, hfails⟩ := hagree.fails astray named hl hn hcode
  refine ⟨by decide +kernel, by decide +kernel, ⟨s, hrun, ?_⟩, hcode',
    (commands_agree quietly onCourse.toSource {} midnight).passes hcode'⟩
  have hfair : s.engine.Fair (fun _ => .work) := by
    unfold run at hrun
    rw [hl] at hrun
    cases hrun
    exact Engine.fair_of_ended (n := 10) (Engine.isIdle_iff.mp (by decide +kernel))
      (by decide +kernel) (by decide +kernel) fun k => ⟨k, Nat.le_refl k, rfl⟩
  obtain ⟨n, hends⟩ := hfails.ends _ hfair (by simp)
  obtain ⟨out, hout⟩ := hends n (Nat.le_refl n)
  exact ⟨hfair, n, out, hout, hfails.code _ _ _ hout⟩

end Rehearsed

end TradingBot
