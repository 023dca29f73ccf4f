import Mathlib.Data.List.Nodup
import TradingBot.Config.Basic

/-!
# What a configuration that loads satisfies

**The check is exact.** `Config.violation?` finds a broken rule exactly where a configuration is not
valid (`Config.violation?_eq_none_iff`), so a source loads to its sections exactly when they are
valid together (`Config.Source.load_eq_ok_iff`).

**Strategies of enabled markets.** In a valid configuration each enabled market names a strategy
that is listed, and no other strategy has its identifier
(`Config.Valid.exists_strategy`). Whatever lookup is used finds the same one.
-/

namespace TradingBot.Config

/-! ## The check finds every broken rule -/

theorem Engine.violation?_eq_none_iff (e : Engine) : e.violation? = none ↔ e.Valid := by
  unfold Engine.violation? Engine.Valid
  rw [← Decimal.not_lt]
  split_ifs <;> simp_all

theorem firstRepeated_eq_none_iff (seen ids : List String) :
    firstRepeated seen ids = none ↔ ids.Nodup ∧ ∀ id ∈ ids, id ∉ seen := by
  induction ids generalizing seen with
  | nil => simp [firstRepeated]
  | cons id ids ih =>
    unfold firstRepeated
    split
    · next h => simp [h]
    · next h =>
      rw [ih]
      simp only [List.nodup_cons, List.mem_cons, forall_eq_or_imp, not_or]
      constructor
      · rintro ⟨hn, hs⟩
        exact ⟨⟨fun hm => (hs id hm).1 rfl, hn⟩, h, fun i hi => (hs i hi).2⟩
      · rintro ⟨⟨hm, hn⟩, -, hs⟩
        exact ⟨hn, fun i hi => ⟨fun e => hm (e ▸ hi), hs i hi⟩⟩

theorem marketViolation?_eq_none_iff (strategyIds seen : List String) (ms : List Market) :
    marketViolation? strategyIds seen ms = none ↔
      (ms.map (·.id)).Nodup ∧ (∀ m ∈ ms, m.id ∉ seen) ∧
        ∀ m ∈ ms, m.enabled = true → m.strategyId ∈ strategyIds := by
  induction ms generalizing seen with
  | nil => simp [marketViolation?]
  | cons m ms ih =>
    unfold marketViolation?
    split
    · next h => simp [h]
    · next h =>
      split
      · next hu => simp [hu.1, hu.2]
      · next hu =>
        have hu : m.enabled = true → m.strategyId ∈ strategyIds := by simpa using hu
        rw [ih]
        simp only [List.map_cons, List.nodup_cons, List.mem_cons, forall_eq_or_imp, not_or,
          List.mem_map, not_exists, not_and]
        constructor
        · rintro ⟨hn, hs, hl⟩
          exact ⟨⟨fun k hk => (hs k hk).1, hn⟩, ⟨h, fun k hk => (hs k hk).2⟩, hu, hl⟩
        · rintro ⟨⟨hm, hn⟩, ⟨-, hs⟩, -, hl⟩
          exact ⟨hn, fun k hk => ⟨hm k hk, hs k hk⟩, hl⟩

theorem violation?_eq_none_iff (c : Config) : c.violation? = none ↔ c.Valid := by
  unfold violation? Valid enabledMarkets
  split
  · next v he =>
    have : ¬ c.engine.Valid := fun h => by
      rw [(Engine.violation?_eq_none_iff _).mpr h] at he
      cases he
    simp [this]
  · next he =>
    have hv := (Engine.violation?_eq_none_iff _).mp he
    split
    · next hb => simp [hb]
    · next hb =>
      split
      · next id hr =>
        have : ¬ (c.strategies.map (·.id)).Nodup := fun h => by
          rw [(firstRepeated_eq_none_iff [] _).mpr ⟨h, by simp⟩] at hr
          cases hr
        simp [this]
      · next hr =>
        have hn := ((firstRepeated_eq_none_iff [] _).mp hr).1
        rw [marketViolation?_eq_none_iff]
        simp [hv, hb, hn]

/-! ## Loading -/

theorem check_eq_ok_iff {c c' : Config} : c.check = .ok c' ↔ c' = c ∧ c.Valid := by
  rw [← violation?_eq_none_iff]
  unfold check
  split
  · next h => simp [h]
  · next h => simp [h, eq_comm]

/-- A source loads to its sections, provided that they can be read and are valid together. -/
theorem Source.load_eq_ok_iff {s : Source} {c : Config} :
    s.load = .ok c ↔ s.sections = .ok c ∧ c.Valid := by
  unfold Source.load
  cases hs : s.sections with
  | error e => simp [Except.bind]
  | ok d =>
    show d.check = .ok c ↔ _
    rw [check_eq_ok_iff]
    constructor
    · rintro ⟨rfl, h⟩
      exact ⟨rfl, h⟩
    · rintro ⟨h, hv⟩
      cases h
      exact ⟨rfl, hv⟩

theorem Source.valid_of_load {s : Source} {c : Config} (h : s.load = .ok c) : c.Valid :=
  (Source.load_eq_ok_iff.mp h).2

/-- A valid configuration that is its own source loads to itself. -/
theorem Valid.load {c : Config} (h : c.Valid) : c.toSource.load = .ok c :=
  Source.load_eq_ok_iff.mpr ⟨rfl, h⟩

/-! ## The strategies of enabled markets -/

/-- Without a repetition among the identifiers, a listed strategy is the one that its identifier
names. -/
theorem strategy?_of_mem {c : Config} (hn : (c.strategies.map (·.id)).Nodup) {s : Strategy}
    (hs : s ∈ c.strategies) : c.strategy? s.id = some s := by
  have hu : ∀ t ∈ c.strategies, t.id = s.id → t = s := fun t ht he =>
    List.inj_on_of_nodup_map hn ht hs he
  cases hf : c.strategy? s.id with
  | none => exact absurd (List.find?_eq_none.mp hf s hs) (by simp)
  | some t =>
    have ht := List.mem_of_find?_eq_some hf
    have he : t.id = s.id := by simpa using List.find?_some hf
    rw [hu t ht he]

theorem of_strategy? {c : Config} {id : String} {s : Strategy} (h : c.strategy? id = some s) :
    s ∈ c.strategies ∧ s.id = id :=
  ⟨List.mem_of_find?_eq_some h, by simpa using List.find?_some h⟩

theorem Valid.exists_strategy {c : Config} (h : c.Valid) {m : Market}
    (hm : m ∈ c.enabledMarkets) :
    ∃ s, c.strategy? m.strategyId = some s ∧ s ∈ c.strategies ∧ s.id = m.strategyId ∧
      ∀ t ∈ c.strategies, t.id = m.strategyId → t = s := by
  obtain ⟨-, -, hn, -, hl⟩ := h
  obtain ⟨s, hs, he⟩ := List.mem_map.mp (hl m hm)
  refine ⟨s, he ▸ strategy?_of_mem hn hs, hs, he, fun t ht hte => ?_⟩
  exact List.inj_on_of_nodup_map hn ht hs (hte.trans he.symm)

end TradingBot.Config
