import Mathlib.Data.List.TakeWhile
import TradingBot.Proofs.Validity

/-!
# The violation that is reported

**Places** (`Config.Place`). Where a configuration can break a rule: at a setting of the engine, at
the adapter, at a strategy or at a market of its lists. Places come in the order in which they are
gone through; of a market, the identifier comes before the strategy that it names.

**Breaking a rule** (`Config.Breaks`). What it takes to break the rule of a place, whatever is wrong
at other places.

**Theorem (`Config.check_reports_first_broken`).** A configuration passes the check exactly if no
rule is broken at any place, which is what it is to be valid. Otherwise the check reports the
violation at the first place where there is one.
-/

namespace TradingBot

/-! ## Blank text -/

theorem Text.trimList_eq_nil_iff {cs : List Char} : trimList cs = [] ↔ ∀ c ∈ cs, isBlank c := by
  unfold trimList
  rw [List.reverse_eq_nil_iff, List.dropWhile_eq_nil_iff]
  simp only [List.mem_reverse]
  constructor
  · intro h c hc
    rw [← List.takeWhile_append_dropWhile (p := isBlank) (l := cs), List.mem_append] at hc
    exact hc.elim List.mem_takeWhile_imp (h c)
  · intro h c hc
    exact h c ((List.dropWhile_suffix isBlank).subset hc)

/-- A text is blank exactly if nothing is left of it without the white space at its ends. -/
theorem Text.trim_eq_empty_iff {s : String} : trim s = "" ↔ Blank s := by
  rw [trim, Blank, ← trimList_eq_nil_iff]
  constructor
  · intro h
    simpa using congrArg String.toList h
  · intro h
    rw [h]

namespace Config

/-! ## Places -/

/-- Where a rule can be broken. Strategies and markets are given by how many come before them. -/
inductive Place where
  | botId
  | interval
  | stopBalance
  | stopCurrency
  | adapter
  | strategy (k : Nat)
  | marketId (k : Nat)
  | marketStrategy (k : Nat)

namespace Place

/-- The part of a configuration that a place belongs to, by its turn. -/
def stage : Place → Nat
  | botId => 0
  | interval => 1
  | stopBalance => 2
  | stopCurrency => 3
  | adapter => 4
  | strategy _ => 5
  | marketId _ | marketStrategy _ => 6

/-- Which turn a place has within its part. -/
def turn : Place → Nat
  | strategy k => k
  | marketId k => 2 * k
  | marketStrategy k => 2 * k + 1
  | botId | interval | stopBalance | stopCurrency | adapter => 0

/-- Places come part by part, and by their turns within one. -/
instance : LE Place := ⟨fun p q => p.stage < q.stage ∨ p.stage = q.stage ∧ p.turn ≤ q.turn⟩

theorem le_def {p q : Place} :
    p ≤ q ↔ p.stage < q.stage ∨ p.stage = q.stage ∧ p.turn ≤ q.turn := Iff.rfl

theorem eq_of_le_of_le {p q : Place} (hpq : p ≤ q) (hqp : q ≤ p) : p = q := by
  rw [le_def] at hpq hqp
  have hstage : p.stage = q.stage := by omega
  have hturn : p.turn = q.turn := by omega
  cases p <;> cases q <;> simp [stage, turn] at hstage hturn ⊢ <;> omega

end Place

/-! ## Broken rules -/

/-- At a place, a rule is broken, and this is to be reported. -/
inductive Breaks (c : Config) : Place → Violation → Prop
  | botId : Text.trim c.engine.botId = "" → Breaks c .botId .blankBotId
  | interval : c.engine.cycleInterval = 0 → Breaks c .interval .zeroInterval
  | stopBalance : c.engine.stopBalance < .zero →
      Breaks c .stopBalance (.negativeStopBalance c.engine.stopBalance)
  | stopCurrency : .zero < c.engine.stopBalance → Text.trim c.engine.stopCurrency = "" →
      Breaks c .stopCurrency .blankStopCurrency
  | adapter : Text.trim c.exchange.adapter = "" → Breaks c .adapter .blankAdapter
  /-- The identifier of a strategy occurred before. -/
  | strategy {before behind : List Strategy} {s : Strategy} : c.strategies = before ++ s :: behind →
      s.id ∈ before.map (·.id) → Breaks c (.strategy before.length) (.repeatedStrategy s.id)
  /-- The identifier of a market occurred before, whether or not the markets are enabled. -/
  | marketId {before behind : List Market} {m : Market} : c.markets = before ++ m :: behind →
      m.id ∈ before.map (·.id) → Breaks c (.marketId before.length) (.repeatedMarket m.id)
  /-- An enabled market names a strategy that is not listed. -/
  | marketStrategy {before behind : List Market} {m : Market} :
      c.markets = before ++ m :: behind → m.enabled = true →
      (∀ s ∈ c.strategies, s.id ≠ m.strategyId) →
      Breaks c (.marketStrategy before.length) (.unknownStrategy m.id m.strategyId)

/-- The violation at the first place where a rule is broken. -/
def FirstBroken (c : Config) (v : Violation) : Prop :=
  ∃ p, c.Breaks p v ∧ ∀ q w, c.Breaks q w → p ≤ q

/-- No rule is broken in the first so many parts. -/
def KeptBefore (c : Config) (stage : Nat) : Prop := ∀ q w, c.Breaks q w → stage ≤ q.stage

variable {c : Config} {v w : Violation} {p : Place} {n : Nat}

theorem split_unique {α : Type} {before before' behind behind' : List α} {a a' : α}
    (h : before ++ a :: behind = before' ++ a' :: behind') (hl : before.length = before'.length) :
    a = a' := by
  obtain ⟨-, htail⟩ := List.append_inj h hl
  exact (List.cons.inj htail).1

theorem Breaks.unique (h : c.Breaks p v) (h' : c.Breaks p w) : v = w := by
  generalize hp : p = p' at h'
  cases h with
  | botId | interval | stopBalance | stopCurrency | adapter =>
    cases h' <;> cases hp
    rfl
  | strategy hs _ =>
    cases h' with
    | strategy hs' _ => rw [split_unique (hs.symm.trans hs') (Place.strategy.inj hp)]
    | _ => cases hp
  | marketId hm _ =>
    cases h' with
    | marketId hm' _ => rw [split_unique (hm.symm.trans hm') (Place.marketId.inj hp)]
    | _ => cases hp
  | marketStrategy hm _ _ =>
    cases h' with
    | marketStrategy hm' _ _ =>
      rw [split_unique (hm.symm.trans hm') (Place.marketStrategy.inj hp)]
    | _ => cases hp

theorem FirstBroken.unique (h : c.FirstBroken v) (h' : c.FirstBroken w) : v = w := by
  obtain ⟨p, hp, hfirst⟩ := h
  obtain ⟨q, hq, hfirst'⟩ := h'
  obtain rfl := Place.eq_of_le_of_le (hfirst q w hq) (hfirst' p v hp)
  exact hp.unique hq

/-- A broken rule is the first one if none is broken in earlier parts, nor earlier in its own. -/
theorem Breaks.first (h : c.Breaks p v) (hkept : c.KeptBefore p.stage)
    (hturn : ∀ q w, c.Breaks q w → q.stage = p.stage → p.turn ≤ q.turn) : c.FirstBroken v := by
  refine ⟨p, h, fun q w hq => Place.le_def.mpr ?_⟩
  rcases Nat.lt_or_eq_of_le (hkept q w hq) with hlt | heq
  · exact .inl hlt
  · exact .inr ⟨heq, hturn q w hq heq.symm⟩

theorem keptBefore_zero (c : Config) : c.KeptBefore 0 := fun _ _ _ => Nat.zero_le _

theorem KeptBefore.succ (h : c.KeptBefore n) (hn : ∀ q w, c.Breaks q w → q.stage ≠ n) :
    c.KeptBefore (n + 1) :=
  fun q w hq => Nat.lt_of_le_of_ne (h q w hq) (hn q w hq).symm

/-! ## Engine and adapter -/

theorem KeptBefore.pastBotId (h : c.KeptBefore 0) (hb : ¬ Text.Blank c.engine.botId) :
    c.KeptBefore 1 :=
  h.succ fun q w hq hs => by
    cases hq with
    | botId ht => exact hb (Text.trim_eq_empty_iff.mp ht)
    | _ => cases hs

theorem KeptBefore.pastInterval (h : c.KeptBefore 1) (hi : c.engine.cycleInterval ≠ 0) :
    c.KeptBefore 2 :=
  h.succ fun q w hq hs => by
    cases hq with
    | interval h0 => exact hi h0
    | _ => cases hs

theorem KeptBefore.pastStopBalance (h : c.KeptBefore 2) (hb : ¬ c.engine.stopBalance < .zero) :
    c.KeptBefore 3 :=
  h.succ fun q w hq hs => by
    cases hq with
    | stopBalance hneg => exact hb hneg
    | _ => cases hs

theorem KeptBefore.pastStopCurrency (h : c.KeptBefore 3)
    (hc : ¬ (c.engine.WatchesBalance ∧ Text.Blank c.engine.stopCurrency)) : c.KeptBefore 4 :=
  h.succ fun q w hq hs => by
    cases hq with
    | stopCurrency hpos ht => exact hc ⟨hpos, Text.trim_eq_empty_iff.mp ht⟩
    | _ => cases hs

theorem KeptBefore.pastAdapter (h : c.KeptBefore 4) (ha : ¬ Text.Blank c.exchange.adapter) :
    c.KeptBefore 5 :=
  h.succ fun q w hq hs => by
    cases hq with
    | adapter ht => exact ha (Text.trim_eq_empty_iff.mp ht)
    | _ => cases hs

/-- A broken rule of a part that has one place only is the first one of its part. -/
theorem Breaks.first_of_turn (h : c.Breaks p v) (hkept : c.KeptBefore p.stage) (ht : p.turn = 0) :
    c.FirstBroken v :=
  h.first hkept fun _ _ _ _ => ht ▸ Nat.zero_le _

/-- **The engine's own rules** come before all others. -/
theorem engine_cases (c : Config) :
    (∃ v, c.engine.violation? = some v ∧ c.FirstBroken v) ∨
      c.engine.violation? = none ∧ c.KeptBefore 4 := by
  unfold Engine.violation?
  have h0 := keptBefore_zero c
  by_cases hbot : Text.Blank c.engine.botId
  · rw [if_pos hbot]
    exact .inl ⟨_, rfl, Breaks.first_of_turn (.botId (Text.trim_eq_empty_iff.mpr hbot)) h0 rfl⟩
  have h1 := h0.pastBotId hbot
  rw [if_neg hbot]
  by_cases hint : c.engine.cycleInterval = 0
  · rw [if_pos hint]
    exact .inl ⟨_, rfl, Breaks.first_of_turn (.interval hint) h1 rfl⟩
  have h2 := h1.pastInterval hint
  rw [if_neg hint]
  by_cases hneg : c.engine.stopBalance < .zero
  · rw [if_pos hneg]
    exact .inl ⟨_, rfl, Breaks.first_of_turn (.stopBalance hneg) h2 rfl⟩
  have h3 := h2.pastStopBalance hneg
  rw [if_neg hneg]
  by_cases hcur : c.engine.WatchesBalance ∧ Text.Blank c.engine.stopCurrency
  · rw [if_pos hcur]
    have hb : c.Breaks .stopCurrency .blankStopCurrency :=
      .stopCurrency hcur.1 (Text.trim_eq_empty_iff.mpr hcur.2)
    exact .inl ⟨_, rfl, hb.first_of_turn h3 rfl⟩
  · rw [if_neg hcur]
    exact .inr ⟨rfl, h3.pastStopCurrency hcur⟩

/-! ## Strategies -/

/-- The repetition that is found is the first one. -/
theorem split_of_firstRepeated {seen ids : List String} {id : String}
    (h : firstRepeated seen ids = some id) : ∃ before behind, ids = before ++ id :: behind ∧
      before.Nodup ∧ (∀ i ∈ before, i ∉ seen) ∧ (id ∈ seen ∨ id ∈ before) := by
  induction ids generalizing seen with
  | nil => cases h
  | cons i ids ih =>
    unfold firstRepeated at h
    split at h
    · next hi =>
      cases h
      exact ⟨[], ids, rfl, List.nodup_nil, List.forall_mem_nil _, .inl hi⟩
    · next hi =>
      obtain ⟨before, behind, rfl, hn, hfresh, hrep⟩ := ih h
      refine ⟨i :: before, behind, rfl, ?_, ?_, ?_⟩
      · exact List.nodup_cons.mpr ⟨fun hm => hfresh i hm List.mem_cons_self, hn⟩
      · rw [List.forall_mem_cons]
        exact ⟨hi, fun j hj hseen => hfresh j hj (List.mem_cons_of_mem i hseen)⟩
      · rw [List.mem_cons] at hrep ⊢
        rcases hrep with (hfirst | hseen) | hbefore
        · exact .inr (.inl hfirst)
        · exact .inl hseen
        · exact .inr (.inr hbefore)

/-- What comes before the shorter split of a list comes before the longer one. -/
theorem exists_of_split_lt {α : Type} {before before' behind behind' : List α} {a a' : α}
    (h : before ++ a :: behind = before' ++ a' :: behind') (hl : before.length < before'.length) :
    ∃ between, before' = before ++ a :: between := by
  rcases List.append_eq_append_iff.mp h with ⟨between, rfl, hb⟩ | ⟨between, rfl, -⟩
  · cases between with
    | nil => simp at hl
    | cons a'' between =>
      rw [List.cons_append, List.cons.injEq] at hb
      exact ⟨between, by rw [hb.1]⟩
  · rw [List.length_append] at hl
    omega

theorem KeptBefore.pastStrategies (h : c.KeptBefore 5) (hn : (c.strategies.map (·.id)).Nodup) :
    c.KeptBefore 6 :=
  h.succ fun q w hq hs => by
    cases hq with
    | strategy hl hrep =>
      rw [hl, List.map_append, List.nodup_append] at hn
      exact hn.2.2 _ hrep _ List.mem_cons_self rfl
    | _ => cases hs

theorem first_of_repeatedStrategy {id : String} (hkept : c.KeptBefore 5)
    (h : firstRepeated [] (c.strategies.map (·.id)) = some id) :
    c.FirstBroken (.repeatedStrategy id) := by
  obtain ⟨ids, ids', hids, hn, -, hrep⟩ := split_of_firstRepeated h
  obtain ⟨before, rest, hl, rfl, hrest⟩ := List.map_eq_append_iff.mp hids
  obtain ⟨s, behind, rfl, rfl, rfl⟩ := List.map_eq_cons_iff.mp hrest
  have hb : c.Breaks (.strategy before.length) (.repeatedStrategy s.id) :=
    .strategy hl (hrep.resolve_left List.not_mem_nil)
  refine hb.first hkept fun q w hq hs => ?_
  cases hq with
  | strategy hl' hrep' =>
    by_contra hlt
    obtain ⟨between, rfl⟩ := exists_of_split_lt (hl'.symm.trans hl) (Nat.not_le.mp hlt)
    rw [List.map_append, List.nodup_append] at hn
    exact hn.2.2 _ hrep' _ List.mem_cons_self rfl
  | _ => cases hs

/-! ## Markets -/

/-- Market by market: no identifier occurred before, nor is one seen already, and every enabled
market names a strategy that is listed. -/
theorem split_of_marketViolation {ids seen : List String} {ms : List Market}
    (h : marketViolation? ids seen ms = some v) : ∃ before m behind, ms = before ++ m :: behind ∧
      marketViolation? ids seen before = none ∧
      ((m.id ∈ seen ∨ m.id ∈ before.map (·.id)) ∧ v = .repeatedMarket m.id ∨
        m.id ∉ seen ∧ m.id ∉ before.map (·.id) ∧ m.enabled = true ∧ m.strategyId ∉ ids ∧
          v = .unknownStrategy m.id m.strategyId) := by
  induction ms generalizing seen with
  | nil => cases h
  | cons k ms ih =>
    unfold marketViolation? at h
    split at h
    · next hk =>
      cases h
      exact ⟨[], k, ms, rfl, rfl, .inl ⟨.inl hk, rfl⟩⟩
    · next hk =>
      split at h
      · next hu =>
        cases h
        exact ⟨[], k, ms, rfl, rfl, .inr ⟨hk, List.not_mem_nil, hu.1, hu.2, rfl⟩⟩
      · next hu =>
        obtain ⟨before, m, behind, rfl, hnone, hv⟩ := ih h
        refine ⟨k :: before, m, behind, rfl, ?_, ?_⟩
        · rw [marketViolation?, if_neg hk, if_neg hu]
          exact hnone
        · simp only [List.map_cons, List.mem_cons, not_or] at hv ⊢
          tauto

theorem KeptBefore.pastMarkets (h : c.KeptBefore 6) (hn : (c.markets.map (·.id)).Nodup)
    (hnames : ∀ m ∈ c.enabledMarkets, m.strategyId ∈ c.strategies.map (·.id)) : c.KeptBefore 7 :=
  h.succ fun q w hq hs => by
    cases hq with
    | marketId hl hrep =>
      rw [hl, List.map_append, List.nodup_append] at hn
      exact hn.2.2 _ hrep _ List.mem_cons_self rfl
    | @marketStrategy before behind m hl he hun =>
      have hm : m ∈ c.enabledMarkets := List.mem_filter.mpr ⟨by rw [hl]; simp, he⟩
      obtain ⟨s, hs, hid⟩ := List.mem_map.mp (hnames m hm)
      exact hun s hs hid
    | _ => cases hs

theorem first_of_marketViolation (hkept : c.KeptBefore 6)
    (h : marketViolation? (c.strategies.map (·.id)) [] c.markets = some v) :
    c.FirstBroken v := by
  obtain ⟨before, m, behind, hl, hnone, hv⟩ := split_of_marketViolation h
  obtain ⟨hn, -, hnames⟩ := (marketViolation?_eq_none_iff _ _ _).mp hnone
  -- Neither of the two rules for markets is broken at a market that comes before this one.
  have hid {before' behind' : List Market} {m' : Market}
      (hl' : c.markets = before' ++ m' :: behind') (hrep' : m'.id ∈ before'.map (·.id)) :
      before.length ≤ before'.length := by
    by_contra hlt
    obtain ⟨between, rfl⟩ := exists_of_split_lt (hl'.symm.trans hl) (Nat.not_le.mp hlt)
    rw [List.map_append, List.nodup_append] at hn
    exact hn.2.2 _ hrep' _ List.mem_cons_self rfl
  have hstrategy {before' behind' : List Market} {m' : Market}
      (hl' : c.markets = before' ++ m' :: behind') (he : m'.enabled = true)
      (hun : ∀ s ∈ c.strategies, s.id ≠ m'.strategyId) : before.length ≤ before'.length := by
    by_contra hlt
    obtain ⟨between, rfl⟩ := exists_of_split_lt (hl'.symm.trans hl) (Nat.not_le.mp hlt)
    obtain ⟨s, hs, he'⟩ := List.mem_map.mp (hnames m' (by simp) he)
    exact hun s hs he'
  rcases hv with ⟨hrep, rfl⟩ | ⟨-, hfresh, he, hun, rfl⟩
  · have hb : c.Breaks (.marketId before.length) (.repeatedMarket m.id) :=
      .marketId hl (hrep.resolve_left List.not_mem_nil)
    refine hb.first hkept fun q w hq hs => ?_
    cases hq with
    | marketId hl' hrep' => exact Nat.mul_le_mul_left 2 (hid hl' hrep')
    | marketStrategy hl' he' hun' =>
      exact Nat.le_succ_of_le (Nat.mul_le_mul_left 2 (hstrategy hl' he' hun'))
    | _ => cases hs
  · have hb : c.Breaks (.marketStrategy before.length) (.unknownStrategy m.id m.strategyId) :=
      .marketStrategy hl he fun s hs hid => hun (List.mem_map.mpr ⟨s, hs, hid⟩)
    refine hb.first hkept fun q w hq hs => ?_
    cases hq with
    | @marketId before' behind' m' hl' hrep' =>
      -- At this very market, the identifier is no repetition.
      have hne : before.length ≠ before'.length := by
        intro hlen
        obtain ⟨rfl, htail⟩ := List.append_inj (hl.symm.trans hl') hlen
        cases htail
        exact hfresh hrep'
      have hle := hid hl' hrep'
      show 2 * before.length + 1 ≤ 2 * before'.length
      omega
    | marketStrategy hl' he' hun' =>
      exact Nat.succ_le_succ (Nat.mul_le_mul_left 2 (hstrategy hl' he' hun'))
    | _ => cases hs

/-! ## The check -/

theorem first_of_violation (h : c.violation? = some v) : c.FirstBroken v := by
  unfold violation? at h
  rcases engine_cases c with ⟨v', hv', hfirst⟩ | ⟨hnone, h4⟩
  · rw [hv'] at h
    cases h
    exact hfirst
  · rw [hnone] at h
    dsimp only at h
    split at h
    · next ha =>
      cases h
      exact Breaks.first_of_turn (.adapter (Text.trim_eq_empty_iff.mpr ha)) h4 rfl
    · next ha =>
      have h5 := h4.pastAdapter ha
      split at h
      · next id hr =>
        cases h
        exact first_of_repeatedStrategy h5 hr
      · next hr =>
        have hn := ((firstRepeated_eq_none_iff [] _).mp hr).1
        exact first_of_marketViolation (h5.pastStrategies hn) h

/-- **Valid configurations** break no rule anywhere. -/
theorem Valid.not_breaks (h : c.Valid) (p : Place) (v : Violation) : ¬ c.Breaks p v := by
  intro hb
  have h4 : c.KeptBefore 4 := by
    rcases engine_cases c with ⟨v', hv', -⟩ | ⟨-, h4⟩
    · rw [(Engine.violation?_eq_none_iff _).mpr h.1] at hv'
      cases hv'
    · exact h4
  obtain ⟨-, ha, hstrategies, hmarkets, hnames⟩ := h
  have hlt : 7 ≤ p.stage :=
    ((h4.pastAdapter ha).pastStrategies hstrategies).pastMarkets hmarkets hnames p v hb
  cases p <;> exact absurd hlt (by simp [Place.stage])

theorem violation?_eq_some_iff : c.violation? = some v ↔ c.FirstBroken v := by
  refine ⟨first_of_violation, fun h => ?_⟩
  cases hv : c.violation? with
  | some w => rw [(first_of_violation hv).unique h]
  | none =>
    obtain ⟨p, hp, -⟩ := h
    exact absurd hp (((violation?_eq_none_iff c).mp hv).not_breaks p v)

theorem valid_iff_not_breaks : c.Valid ↔ ∀ p v, ¬ c.Breaks p v := by
  refine ⟨Valid.not_breaks, fun h => (violation?_eq_none_iff c).mp ?_⟩
  cases hv : c.violation? with
  | none => rfl
  | some v =>
    obtain ⟨p, hp, -⟩ := first_of_violation hv
    exact absurd hp (h p v)

theorem check_eq_error_iff {e : Error} :
    c.check = .error e ↔ ∃ v, e = .invalid v ∧ c.violation? = some v := by
  unfold check
  cases c.violation? with
  | none => simp
  | some v => simp [eq_comm]

/-- **The check of a configuration.** It passes exactly if the configuration is valid, which is to
say that no rule is broken at any place. Otherwise it reports the violation at the first place
where a rule is broken, and nothing else. -/
theorem check_reports_first_broken (c : Config) :
    (c.check = .ok c ↔ c.Valid) ∧ (c.Valid ↔ ∀ p v, ¬ c.Breaks p v) ∧
      ∀ e, c.check = .error e ↔ ∃ v, e = .invalid v ∧ c.FirstBroken v := by
  refine ⟨?_, valid_iff_not_breaks, fun e => ?_⟩
  · rw [check_eq_ok_iff]
    exact and_iff_right rfl
  · simp only [check_eq_error_iff, violation?_eq_some_iff]

/-- A market is at fault both for its identifier, which occurred before, and for its strategy. -/
example :
    let idle : Market := { id := "btcusd", name := "", base := "", counter := "", strategyId := "" }
    ({ engine := { botId := "bot", cycleInterval := 1 }
       exchange := { name := "Paper", adapter := "paper" }
       markets := [idle, { idle with enabled := true }] } : Config).violation? =
      some (.repeatedMarket "btcusd") := by
  decide

end Config

end TradingBot
